import WpConnectorUtils.Codec.Messages
import WpConnectorUtils.Codec.Recording
import WpConnectorUtils.Arrow.Frame

/-!
# Arrow frames through the codec

A sink frames batches under a tag and sends each frame as a message of one encoder; a source
decodes a message and reads the batches of the frame.
-/

namespace WpConnectorUtils
open Codec Arrow

/-- Batches of one schema with their frame, cut into the chunks it is sent in. -/
structure Shipment {S : Type} (B : Type) [Ipc S B] (width : PointerWidth) where
  tag : String
  batches : List B
  chunks : List Codec.Bytes
  framed : encodeIpcFrameMulti tag batches = .ok chunks.flatten
  tagged : (asBytes tag).length < 2 ^ 32
  nonempty : batches ≠ []
  uniform : ∀ b ∈ batches, ∀ b' ∈ batches, Ipc.schema b = Ipc.schema b'
  allocated : Allocated width chunks.flatten

section Shipments

variable {S B W : Type} [Ipc S B] {width : PointerWidth}

/-- Sending frames as messages. -/
def shipments (S : Type) (B : Type) [Ipc S B] (width : PointerWidth) (W : Type) [Crates W] :
    Machine (Session (LayeredEncoder W) W) (Shipment B width) (List (Except CodecError Unit)) where
  step shipment s := (messages (LayeredEncoder W) W).step (shipment.chunks.map .encode) s

/-- If every call succeeded, the piece decodes to a frame that decodes to the batches. -/
def Restores (dec : LayeredDecoder W) (exchange : Shipment B width × List (Except CodecError Unit))
    (piece : Codec.Bytes) : Prop :=
  (∀ reply ∈ exchange.2, Succeeded reply) →
    ∃ f, (∀ prior, Decoder.decode dec piece prior = ⟨.ok (), dec, prior ++ f⟩) ∧
      decodeArrowFramedBatches width f = .ok exchange.1.batches

lemma plaintext_chunks (chunks : List Codec.Bytes) :
    plaintext (chunks.map Call.encode) = chunks.flatten := by
  rw [plaintext, List.map_map]
  exact congrArg List.flatten (List.map_id chunks)

lemma Shipment.decodes (laws : Ipc.RoundTrip S B) (shipment : Shipment B width) :
    decodeArrowFramedBatches width shipment.chunks.flatten = .ok shipment.batches := by
  obtain ⟨tag, batches, chunks, framed, tagged, nonempty, uniform, allocated⟩ := shipment
  have htag : (asBytes tag).length < 256 ^ 4 := lt_of_lt_of_eq tagged (by norm_num)
  cases batches with
  | nil => exact absurd rfl nonempty
  | cons first rest =>
    have hfirst : ∀ b ∈ first :: rest, Ipc.schema b = Ipc.schema first :=
      fun b hb => uniform b hb first List.mem_cons_self
    exact ipc_frame_multi_cons laws htag hfirst framed allocated

lemma shipment_step [Crates W] (ipc : Ipc.RoundTrip S B) {dec : LayeredDecoder W}
    {s : Session (LayeredEncoder W) W} {prior : Codec.Bytes} (h : Between dec s prior)
    (shipment : Shipment B width) :
    ∃ piece wire, Restores dec (shipment, ((shipments S B width W).step shipment s).1) piece ∧
      wire = prior ++ piece ∧ Between dec ((shipments S B width W).step shipment s).2 wire := by
  obtain ⟨d, wire, hdelivered, hwire, hnext⟩ := h.step (shipment.chunks.map .encode)
  refine ⟨d.piece, wire, ?_, hwire, hnext⟩
  intro hok
  have htext := hdelivered.whole hok
  dsimp only at htext
  rw [plaintext_chunks] at htext
  refine ⟨d.text, hdelivered.decodes, ?_⟩
  rw [htext]
  exact shipment.decodes ipc

/-- Frames of batches sent as messages of one encoder, in any chunks and whichever calls fail:
each has its own piece of the wire, and if its calls succeeded the piece decodes, on a decoder
with the same algorithms and key, to a frame that decodes to its batches. -/
theorem batches_through_codec [Crates W] (laws : Crates.RoundTrip W) (ipc : Ipc.RoundTrip S B)
    {compression compression' : Option CompressConfig} {encryption : Option EncryptConfig}
    {enc : LayeredEncoder W} {dec : LayeredDecoder W}
    (halgo : compression'.map CompressConfig.algo = compression.map CompressConfig.algo)
    (henc : buildEncoder compression encryption = .ok enc)
    (hdec : buildDecoder compression' encryption = .ok dec) (sent : List (Shipment B width))
    (prior : Codec.Bytes) (w : W) :
    let M := shipments S B width W
    ∃ pieces, List.Forall₂ (Restores dec) (M.exchanges sent ⟨enc, prior, w⟩) pieces ∧
      ∀ k, (M.run (sent.take k) ⟨enc, prior, w⟩).wire = prior ++ (pieces.take k).flatten := by
  intro M
  have hstart : Between dec ⟨enc, prior, w⟩ prior :=
    ⟨rfl, build_matches laws halgo henc hdec, build_pending henc⟩
  obtain ⟨pieces, hpieces, hruns⟩ := M.simulation_labelled (R := Between dec)
    (fun shipment _ _ h => shipment_step ipc h shipment) sent hstart
  refine ⟨pieces, hpieces, fun k => ?_⟩
  obtain ⟨wire, hrun, hwire⟩ := hruns k
  rw [hwire.wire_eq, Machine.appended_of_run hrun, List.map_id']

end Shipments

/-! ### Recorded messages -/

namespace Codec.Recorded

variable {r : Recording} {key : Codec.Bytes} {chunks : List Codec.Bytes} {drawn : Nat} {f g : Frame}

/-- An encoder with both layers between two messages. -/
def between (r : Recording) (key : Codec.Bytes) (noncesIssued sealedBytes : Nat) (wire : Codec.Bytes)
    (drawn : Nat) : Session (LayeredEncoder (Recorded r)) (Recorded r) :=
  ⟨⟨some (buildCompressor {}), some ⟨ringAes256Gcm key, .aes256Gcm, noncesIssued, sealedBytes⟩⟩, wire,
    ⟨drawn⟩⟩

lemma fits_block {n : Nat} (h : chunks.flatten.length = n) (hpos : 0 < n) (hlt : n < compressBlockSize) :
    chunks.flatten ≠ [] ∧ chunks.flatten.length < compressBlockSize := by
  rw [← List.length_pos_iff, h]
  exact ⟨hpos, hlt⟩

lemma message_sent (h : Sends r key chunks.flatten drawn f g) (hne : chunks.flatten ≠ [])
    (hshort : chunks.flatten.length < compressBlockSize) (noncesIssued sealedBytes : Nat)
    (wire : Codec.Bytes) :
    (messages (LayeredEncoder (Recorded r)) (Recorded r)).step (chunks.map .encode)
        (between r key noncesIssued sealedBytes wire drawn) =
      (List.replicate chunks.length (.ok ()) ++ [.ok ()],
        between r key (noncesIssued + 1) (sealedBytes + f.bytes.length) (wire ++ g.bytes)
          (drawn + 1)) :=
  short_message (c := buildCompressor {}) hshort (call_finish h hne noncesIssued sealedBytes wire)

lemma message_undrawn (h : Zips r chunks.flatten f) (hne : chunks.flatten ≠ [])
    (hshort : chunks.flatten.length < compressBlockSize)
    (hdraw : draw (⟨drawn⟩ : Recorded r) = .error ()) (noncesIssued sealedBytes : Nat)
    (wire : Codec.Bytes) :
    (messages (LayeredEncoder (Recorded r)) (Recorded r)).step (chunks.map .encode)
        (between r key noncesIssued sealedBytes wire drawn) =
      (List.replicate chunks.length (.ok ()) ++ [.error (.encrypt "nonce generation failed")],
        between r key noncesIssued sealedBytes wire (drawn + 1)) :=
  short_message (c := buildCompressor {}) hshort
    (call_finish_undrawn h hne hdraw noncesIssued sealedBytes wire)

end Codec.Recorded

/-! ### A sample: two frames, compressed and encrypted -/

namespace RowFrames
open Recorded

/-- Two batches in two chunks, and one of them. -/
def two : List Codec.Bytes := [frameHeader "tag", RowBatch.schemaMessage ++ RowBatch.one.message ++
  RowBatch.three.message ++ RowBatch.endOfStream]

def one : List Codec.Bytes := [frameHeader "tag", RowBatch.schemaMessage ++ RowBatch.three.message ++
  RowBatch.endOfStream]

def zstdTwo : Codec.Bytes :=
  [0x28, 0xb5, 0x2f, 0xfd, 0x60, 0x4f, 0x00, 0x05, 0x03, 0x00, 0x12, 0x04, 0x0d, 0x19, 0xc0, 0x25,
    0xad, 0x01, 0xff, 0xff, 0xff, 0xff, 0xae, 0xb5, 0xa3, 0xfd, 0xdf, 0x9e, 0x5d, 0x6b, 0x41,
    0x48, 0xdd, 0x44, 0x16, 0xb4, 0x14, 0x3b, 0x05, 0x5f, 0xc5, 0x38, 0xd1, 0xa2, 0x4e, 0x42,
    0x74, 0x68, 0xe9, 0x81, 0x9f, 0xa7, 0x29, 0xd6, 0x0c, 0x5a, 0xd4, 0x12, 0x3f, 0xee, 0xee,
    0x12, 0x04, 0x50, 0x0f, 0x11, 0x00, 0x00, 0xa8, 0x74, 0x60, 0x24, 0x60, 0xee, 0x80, 0xd6,
    0x77, 0x63, 0x70, 0x6c, 0xc7, 0x5f, 0x85, 0xd7, 0xc1, 0x12, 0x47, 0x70, 0x03, 0x0b, 0x80,
    0xe8, 0x10, 0x82, 0xc0, 0x09, 0xa4, 0x30, 0x58, 0x59, 0xe7, 0xe6, 0xfb, 0x2b, 0x58, 0x02]

def zstdOne : Codec.Bytes :=
  [0x28, 0xb5, 0x2f, 0xfd, 0x20, 0xcf, 0xdd, 0x02, 0x00, 0x42, 0x44, 0x0d, 0x19, 0xc0, 0x25, 0xad,
    0x01, 0xff, 0xff, 0xff, 0xff, 0xae, 0xb5, 0x03, 0xfa, 0xbf, 0x7d, 0xb6, 0xae, 0x82, 0x24,
    0x60, 0x13, 0x59, 0xd0, 0x5b, 0x90, 0x14, 0xbf, 0x6d, 0x05, 0x39, 0xd1, 0xa3, 0x9c, 0x88,
    0x68, 0xb1, 0xd2, 0x07, 0x3f, 0x4f, 0x23, 0x54, 0x73, 0x58, 0xd1, 0x6a, 0x3c, 0xd9, 0xb6,
    0x00, 0x40, 0x50, 0x1e, 0x0f, 0x00, 0xcc, 0x1d, 0xd0, 0xfa, 0x6e, 0x0c, 0x8e, 0xed, 0xf8,
    0xab, 0xf0, 0x3a, 0x58, 0xe2, 0x08, 0x6e, 0x60, 0x01, 0x10, 0x1d, 0x42, 0x10, 0x38, 0x81,
    0x14, 0x06, 0x2b, 0xeb, 0xdc, 0x7c, 0x7f, 0x05, 0x4b]

def zippedTwo : Frame := ⟨.zstd, zstdTwo, by decide⟩

def zippedOne : Frame := ⟨.zstd, zstdOne, by decide⟩

def sealedTwo : Codec.Bytes :=
  [0x10, 0x52, 0xd7, 0x19, 0xc5, 0xe5, 0xc2, 0x71, 0xa5, 0xf4, 0xb8, 0x76, 0xd1, 0xa6, 0x78, 0x68,
    0x80, 0xd6, 0x95, 0x30, 0xfd, 0x62, 0x9f, 0x59, 0x95, 0x66, 0x1a, 0x7a, 0xe2, 0x96, 0xae,
    0x07, 0xa2, 0xed, 0x71, 0x62, 0xf2, 0xaa, 0x53, 0xd0, 0xa9, 0xe0, 0x69, 0x59, 0x9c, 0xbc,
    0x2d, 0x67, 0x2b, 0x61, 0xb1, 0x2f, 0x14, 0x94, 0xd7, 0xb2, 0xd6, 0x16, 0xb5, 0xbe, 0x31,
    0x35, 0xf9, 0xb4, 0x24, 0x2e, 0xf9, 0x94, 0x3d, 0xc3, 0x22, 0x31, 0x13, 0x45, 0xaa, 0x6e,
    0x47, 0xfb, 0x6e, 0xcc, 0x58, 0x64, 0x49, 0xb4, 0x01, 0x00, 0x23, 0x04, 0x3a, 0xa2, 0x1b,
    0x1b, 0xb9, 0xe2, 0xfe, 0xfd, 0xc8, 0xf3, 0xd9, 0x0e, 0xb4, 0xc3, 0x08, 0x13, 0x3a, 0x2c,
    0x66, 0xeb, 0xaf, 0x93, 0xda, 0x54, 0xe2, 0x65, 0xcf, 0xe3, 0x61, 0xd0, 0xeb, 0xbf, 0xde,
    0xb4, 0xc8, 0xfa, 0x99, 0xc2, 0xb0, 0x41, 0x64, 0xf4]

def sealedOne : Codec.Bytes :=
  [0xcf, 0xae, 0x68, 0xda, 0x7f, 0x76, 0xfc, 0x37, 0x1f, 0x9f, 0x67, 0x28, 0xb1, 0x44, 0xfb, 0xe5,
    0x55, 0x41, 0xa9, 0xe3, 0xef, 0xbd, 0x1e, 0x07, 0x9a, 0x5d, 0x05, 0x1f, 0x1b, 0x0e, 0x75,
    0xf9, 0xd6, 0x48, 0x17, 0x93, 0x4f, 0x47, 0x02, 0x01, 0x0c, 0xaa, 0xde, 0x09, 0x7e, 0xb8,
    0xa5, 0xb7, 0x89, 0x6f, 0x6a, 0x72, 0x35, 0x7c, 0x7c, 0x02, 0x9c, 0xf8, 0x45, 0x13, 0x99,
    0xb9, 0x39, 0xe0, 0xca, 0x40, 0x7c, 0x12, 0x47, 0xb2, 0x9c, 0x01, 0xeb, 0x77, 0xb7, 0xb7,
    0x5d, 0xdc, 0xf0, 0xe6, 0x36, 0xa6, 0x21, 0xbf, 0xfa, 0x26, 0x3a, 0x6e, 0x74, 0x25, 0xa1,
    0xab, 0x1f, 0xb4, 0x38, 0xd9, 0xa5, 0x9b, 0x5f, 0xfc, 0x3b, 0x1d, 0xb1, 0x78, 0x15, 0xf2,
    0x2e, 0xee, 0xfe, 0xb3, 0x10, 0x6d, 0x90, 0x18, 0x6e, 0x81, 0xee, 0xa7, 0x60, 0x52, 0x0f,
    0x8f, 0xc1, 0x7d]

/-- The second draw fails. -/
def recording : Recording where
  zipped := [⟨(), two.flatten, zstdTwo⟩, ⟨(), one.flatten, zstdOne⟩]
  sealings := [⟨(SampleWorld.key, SampleWorld.nonce, [0x03]), zippedTwo.bytes, sealedTwo⟩,
    ⟨(SampleWorld.key, TwoTexts.otherNonce, [0x03]), zippedOne.bytes, sealedOne⟩]
  draws := [some SampleWorld.nonce, none, some TwoTexts.otherNonce]
  zipped_invertible := by decide +kernel
  sealings_invertible := by decide +kernel
  fresh := by decide

def sentTwo : Frame := ⟨.aes256Gcm, SampleWorld.nonce.val ++ sealedTwo, by decide +kernel⟩

def sentOne : Frame := ⟨.aes256Gcm, TwoTexts.otherNonce.val ++ sealedOne, by decide +kernel⟩

lemma sends_two : Sends recording SampleWorld.key two.flatten 0 zippedTwo sentTwo := by
  refine ⟨⟨rfl, ?_⟩, rfl, SampleWorld.nonce, sealedTwo, rfl, ?_, rfl⟩ <;> decide +kernel

lemma sends_one : Sends recording SampleWorld.key one.flatten 2 zippedOne sentOne := by
  refine ⟨⟨rfl, ?_⟩, rfl, TwoTexts.otherNonce, sealedOne, rfl, ?_, rfl⟩ <;> decide +kernel

lemma length_two : two.flatten.length = 335 := by decide +kernel

lemma length_one : one.flatten.length = 207 := by decide +kernel

def shipTwo : Shipment RowBatch .w64 where
  tag := "tag"
  batches := [.one, .three]
  chunks := two
  framed := by
    have hencode : encodeIpcFrameMulti "tag" [RowBatch.one, RowBatch.three] =
        .ok (frameHeader "tag" ++ RowBatch.schemaMessage ++ RowBatch.one.message ++
          RowBatch.three.message ++ RowBatch.endOfStream) := rfl
    rw [hencode]
    simp [two]
  tagged := by decide
  nonempty := List.cons_ne_nil _ _
  uniform _ _ _ _ := rfl
  allocated := by
    unfold Allocated
    rw [length_two]
    decide

def shipOne : Shipment RowBatch .w64 where
  tag := "tag"
  batches := [.three]
  chunks := one
  framed := by
    have hencode : encodeIpcFrameMulti "tag" [RowBatch.three] =
        .ok (frameHeader "tag" ++ RowBatch.schemaMessage ++ RowBatch.three.message ++
          RowBatch.endOfStream) := rfl
    rw [hencode]
    simp [one]
  tagged := by decide
  nonempty := List.cons_ne_nil _ _
  uniform _ _ _ _ := rfl
  allocated := by
    unfold Allocated
    rw [length_one]
    decide

lemma replies_and_wire :
    let M := shipments Unit RowBatch .w64 (Recorded recording)
    let start := between recording SampleWorld.key 0 0 [] 0
    M.exchanges [shipTwo, shipTwo, shipOne] start =
      [(shipTwo, [.ok (), .ok (), .ok ()]),
        (shipTwo, [.ok (), .ok (), .error (.encrypt "nonce generation failed")]),
        (shipOne, [.ok (), .ok (), .ok ()])] ∧
      (M.run [shipTwo] start).wire = sentTwo.bytes ∧
      (M.run [shipTwo, shipTwo] start).wire = sentTwo.bytes ∧
      (M.run [shipTwo, shipTwo, shipOne] start).wire = sentTwo.bytes ++ sentOne.bytes := by
  intro M start
  obtain ⟨hne, hshort⟩ := fits_block length_two (by decide) (by decide)
  obtain ⟨hne', hshort'⟩ := fits_block length_one (by decide) (by decide)
  have hfirst : M.step shipTwo start = (_, between recording SampleWorld.key 1
      (0 + zippedTwo.bytes.length) ([] ++ sentTwo.bytes) 1) := message_sent sends_two hne hshort 0 0 []
  have hsecond := @message_undrawn recording SampleWorld.key two 1 zippedTwo sends_two.zips hne hshort rfl 1
    (0 + zippedTwo.bytes.length) ([] ++ sentTwo.bytes)
  have hthird := message_sent sends_one hne' hshort' 1 (0 + zippedTwo.bytes.length)
    ([] ++ sentTwo.bytes)
  change M.step shipTwo _ = _ at hsecond
  change M.step shipOne _ = _ at hthird
  refine ⟨?_, ?_, ?_, ?_⟩
  · simp only [Machine.exchanges, hfirst, hsecond, hthird]
    rfl
  · simp only [Machine.run, hfirst]
    rfl
  · simp only [Machine.run, hfirst, hsecond]
    rfl
  · simp only [Machine.run, hfirst, hsecond, hthird]
    rfl

end RowFrames

open RowFrames Recorded in
/-- The second of three frames meets a draw that fails; the others come back. -/
theorem batches_through_codec_sample :
    let M := shipments Unit RowBatch .w64 (Recorded recording)
    let start : Session (LayeredEncoder (Recorded recording)) (Recorded recording) :=
      ⟨encoder recording SampleWorld.key, [], ⟨0⟩⟩
    let dec := decoder recording SampleWorld.key
    (M.exchanges [shipTwo, shipTwo, shipOne] start).map Prod.snd =
        [[.ok (), .ok (), .ok ()], [.ok (), .ok (), .error (.encrypt "nonce generation failed")],
          [.ok (), .ok (), .ok ()]] ∧
      (M.run [shipTwo, shipTwo, shipOne] start).wire = sentTwo.bytes ++ sentOne.bytes ∧
      (∃ f, (∀ prior, Decoder.decode dec sentTwo.bytes prior = ⟨.ok (), dec, prior ++ f⟩) ∧
        decodeArrowFramedBatches .w64 f = .ok [RowBatch.one, RowBatch.three]) ∧
      ∃ f, (∀ prior, Decoder.decode dec sentOne.bytes prior = ⟨.ok (), dec, prior ++ f⟩) ∧
        decodeArrowFramedBatches .w64 f = .ok [RowBatch.three] := by
  intro M start dec
  obtain ⟨hreplies, hwire₁, hwire₂, hwire₃⟩ := replies_and_wire
  change M.exchanges _ start = _ at hreplies
  obtain ⟨pieces, hpieces, hwires⟩ := @batches_through_codec Unit RowBatch (Recorded recording) _ .w64 _
    Recorded.roundTrip RowBatch.roundTrip (some {}) (some {}) (some ⟨.aes256Gcm, SampleWorld.key⟩)
    (encoder recording SampleWorld.key) dec rfl rfl rfl [shipTwo, shipTwo, shipOne] [] ⟨0⟩
  change List.Forall₂ _ (M.exchanges _ start) pieces at hpieces
  rw [hreplies] at hpieces ⊢
  obtain ⟨first, _, hfirst, hrest, rfl⟩ := List.forall₂_cons_left_iff.mp hpieces
  obtain ⟨second, _, -, hlast, rfl⟩ := List.forall₂_cons_left_iff.mp hrest
  obtain ⟨third, _, hthird, hnil, rfl⟩ := List.forall₂_cons_left_iff.mp hlast
  obtain rfl := List.forall₂_nil_left_iff.mp hnil
  obtain rfl : sentTwo.bytes = first := by simpa using hwire₁.symm.trans (hwires 1)
  obtain rfl : second = [] := by simpa using hwire₂.symm.trans (hwires 2)
  obtain rfl : sentOne.bytes = third := by simpa using hwire₃.symm.trans (hwires 3)
  exact ⟨rfl, hwire₃, hfirst (by simp [Succeeded]), hthird (by simp [Succeeded])⟩

end WpConnectorUtils
