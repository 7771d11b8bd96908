import WpConnectorUtils.Library.BigEndian
import WpConnectorUtils.Library.Fallible

/-!
# Arrow IPC frames

The encoders and decoders of `arrow/encode.rs` and `arrow/decode.rs`. A frame is the length of
a tag (4 bytes, big-endian), the tag and an Arrow IPC stream. The writer and the reader of such
streams belong to another crate: `Ipc` supplies them.
-/

namespace WpConnectorUtils.Arrow
open ByteFormat

abbrev Bytes := List UInt8

/-- `arrow::ipc` for batches `B` of schemas `S`. A writer holds the buffer it was created over, and
a reader is the list of what its iterator yields. -/
class Ipc (S : outParam Type) (B : Type) where
  Writer : Type
  schema : B → S -- `RecordBatch::schema`
  writerTryNew : Bytes → S → Except String Writer -- `StreamWriter::try_new`
  write : Writer → B → Except String Writer
  finish : Writer → Except String Writer
  buffer : Writer → Bytes
  readerTryNew : Bytes → Except String (List (Except String B)) -- `StreamReader::try_new`

/-- What is relied on: a writer appends a stream from which a reader yields the batches written,
and no reader opens on an empty byte string. -/
structure Ipc.RoundTrip (S B : Type) [Ipc S B] : Prop where
  reads : ∀ buf schema (batches : List B) (w₀ w₁ w₂ : Ipc.Writer B),
    (∀ b ∈ batches, Ipc.schema b = schema) → Ipc.writerTryNew buf schema = .ok w₀ →
    batches.foldlM Ipc.write w₀ = .ok w₁ → Ipc.finish w₁ = .ok w₂ →
    ∃ ipc, Ipc.buffer w₂ = buf ++ ipc ∧ Ipc.readerTryNew ipc = .ok (batches.map .ok)
  empty : ∃ e, Ipc.readerTryNew (B := B) [] = .error e

/-- A `SinkError` with reason `SinkReason::Sink`. -/
structure SinkError where
  detail : String
  source : String
  deriving DecidableEq, Repr

section Encode

variable {S B : Type} [Ipc S B]

/-- The details an encoder gives to the errors of its writer. -/
structure WriterDetails where
  create : String
  write : String
  finish : String

/-- The block of the encoders that creates a writer over `buf`, writes and finishes. -/
def writeStream (details : WriterDetails) (buf : Bytes) (schema : S) (batches : List B) :
    Except SinkError Bytes := do
  let writer ← (Ipc.writerTryNew (B := B) buf schema).mapError (SinkError.mk details.create)
  let writer ← (batches.foldlM Ipc.write writer).mapError (SinkError.mk details.write)
  let writer ← (Ipc.finish writer).mapError (SinkError.mk details.finish)
  return Ipc.buffer writer

def encodeBatchIpcStream (batch : B) : Except SinkError Bytes :=
  writeStream ⟨"arrow create stream writer", "arrow encode batch", "arrow finish stream"⟩
    [] (Ipc.schema batch) [batch]

/-- `tag.as_bytes()` -/
def asBytes (tag : String) : Bytes := tag.toUTF8.data.toList

/-- The length as `u32` and the tag. -/
def frameHeader (tag : String) : Bytes := beBytes 4 (asBytes tag).length ++ asBytes tag

def encodeIpcFrame (tag : String) (batch : B) : Except SinkError Bytes :=
  writeStream ⟨"arrow create framed writer", "arrow encode framed", "arrow finish framed"⟩
    (frameHeader tag) (Ipc.schema batch) [batch]

def encodeIpcFrameMulti (tag : String) (batches : List B) : Except SinkError Bytes :=
  match batches with
  | [] => .ok (frameHeader tag)
  | first :: _ =>
    writeStream ⟨"arrow create framed multi writer", "arrow encode framed multi",
      "arrow finish framed multi"⟩ (frameHeader tag) (Ipc.schema first) batches

end Encode

section Decode

variable {S B : Type} [Ipc S B]

def decodeArrowIpcBatches (payload : Bytes) : Except String (List B) := do
  let reader ← (Ipc.readerTryNew payload).mapError fun e => s!"arrow ipc: {e}"
  reader.mapM fun batch => batch.mapError fun e => s!"arrow ipc batch: {e}"

/-- The widths of `usize`. -/
inductive PointerWidth
  | w32
  | w64
  deriving DecidableEq, Repr

def PointerWidth.bits : PointerWidth → Nat
  | w32 => 32
  | w64 => 64

/-- The byte strings a `Vec` can hold: at most `isize::MAX` bytes. -/
def Allocated (width : PointerWidth) (bytes : Bytes) : Prop :=
  bytes.length < 2 ^ (width.bits - 1)

/-- The sum is one of `usize`, without overflow checks. -/
def ipcStart (width : PointerWidth) (payload : Bytes) : Nat :=
  (4 + beNat (payload.take 4)) % 2 ^ width.bits

def decodeArrowFramedBatches (width : PointerWidth) (payload : Bytes) : Except String (List B) :=
  if payload.length < 4 then .ok []
  else if payload.length < ipcStart width payload then .ok []
  else decodeArrowIpcBatches (payload.drop (ipcStart width payload))

end Decode

/-! ### A sample of the crate

Batches without columns: an Arrow IPC stream holds their number of rows. -/

/-- A batch of 1 to 255 rows over the schema without fields. -/
structure RowBatch where
  rows : UInt8
  nonempty : rows ≠ 0
  deriving DecidableEq

namespace RowBatch

def one : RowBatch := ⟨1, by decide⟩

def three : RowBatch := ⟨3, by decide⟩

def schemaMessage : Bytes :=
  [0xff, 0xff, 0xff, 0xff, 0x38, 0x00, 0x00, 0x00, 0x10, 0x00, 0x00, 0x00, 0x00, 0x00, 0x0a,
    0x00, 0x0c, 0x00, 0x0a, 0x00, 0x09, 0x00, 0x04, 0x00, 0x0a, 0x00, 0x00, 0x00, 0x10, 0x00,
    0x00, 0x00, 0x00, 0x01, 0x04, 0x00, 0x08, 0x00, 0x08, 0x00, 0x00, 0x00, 0x04, 0x00, 0x08,
    0x00, 0x00, 0x00, 0x04, 0x00, 0x00, 0x00, 0x00, 0x00, 0x00, 0x00] ++ List.replicate 8 0

/-- The message of a batch up to its number of rows, an `i64` in little-endian. -/
def messageFront : Bytes :=
  [0xff, 0xff, 0xff, 0xff, 0x78, 0x00, 0x00, 0x00, 0x14, 0x00, 0x00, 0x00, 0x00, 0x00, 0x00,
    0x00, 0x00, 0x00, 0x0a, 0x00, 0x0e, 0x00, 0x0c, 0x00, 0x0b, 0x00, 0x04, 0x00, 0x0a, 0x00,
    0x00, 0x00, 0x14, 0x00, 0x00, 0x00, 0x00, 0x00, 0x00, 0x03, 0x04, 0x00, 0x0a, 0x00, 0x18,
    0x00, 0x0c, 0x00, 0x08, 0x00, 0x04, 0x00, 0x0a, 0x00, 0x00, 0x00, 0x1c, 0x00, 0x00, 0x00,
    0x10, 0x00, 0x00, 0x00]

def message (batch : RowBatch) : Bytes := messageFront ++ [batch.rows] ++ List.replicate 63 0

def endOfStream : Bytes := [0xff, 0xff, 0xff, 0xff, 0x00, 0x00, 0x00, 0x00]

def readMessages : Nat → Bytes → List (Except String RowBatch)
  | 0, _ => []
  | fuel + 1, bytes =>
    if bytes = endOfStream then []
    else match bytes.drop 64 with
      | [] => [.error "unexpected end of file"]
      | rows :: _ =>
        if h : rows ≠ 0 ∧ bytes.take 128 = messageFront ++ [rows] ++ List.replicate 63 0 then
          .ok ⟨rows, h.1⟩ :: readMessages fuel (bytes.drop 128)
        else [.error "unsupported message"]

def write (writer : Bytes) (batch : RowBatch) : Except String Bytes := .ok (writer ++ batch.message)

instance : Ipc Unit RowBatch where
  Writer := Bytes
  schema _ := ()
  writerTryNew buf _ := .ok (buf ++ schemaMessage)
  write := write
  finish writer := .ok (writer ++ endOfStream)
  buffer writer := writer
  readerTryNew bytes :=
    if bytes.take 64 = schemaMessage then .ok (readMessages bytes.length (bytes.drop 64))
    else .error "Ipc error: Expected schema message, found empty stream."

@[simp] lemma length_message (batch : RowBatch) : batch.message.length = 128 := by
  simp [message, messageFront]

lemma write_all (batches : List RowBatch) (writer : Bytes) :
    batches.foldlM write writer = .ok (writer ++ batches.flatMap message) := by
  induction batches generalizing writer with
  | nil => simp [pure, Except.pure]
  | cons batch batches ih =>
    rw [Except.foldlM_cons_eq_ok]
    refine ⟨writer ++ batch.message, rfl, ?_⟩
    rw [ih, List.flatMap_cons, List.append_assoc]

lemma length_le_messages (batches : List RowBatch) :
    batches.length ≤ (batches.flatMap message).length := by
  induction batches with
  | nil => simp
  | cons batch batches ih =>
    rw [List.flatMap_cons, List.length_append, length_message, List.length_cons]
    omega

lemma readMessages_message (batch : RowBatch) (fuel : Nat) (rest : Bytes) :
    readMessages (fuel + 1) (batch.message ++ rest) = .ok batch :: readMessages fuel rest := by
  have hne : batch.message ++ rest ≠ endOfStream := by
    intro h
    have hlength := congrArg List.length h
    rw [List.length_append, length_message] at hlength
    simp only [endOfStream, List.length_cons, List.length_nil] at hlength
    omega
  have hdrop : (batch.message ++ rest).drop 64 = batch.rows :: (List.replicate 63 0 ++ rest) := rfl
  have htake : (batch.message ++ rest).take 128 = batch.message := List.take_left' (length_message batch)
  have hrest : (batch.message ++ rest).drop 128 = rest := List.drop_left' (length_message batch)
  rw [readMessages, if_neg hne, hdrop]
  dsimp only
  rw [dif_pos ⟨batch.nonempty, htake⟩, hrest]

lemma readMessages_stream (batches : List RowBatch) {fuel : Nat} (hfuel : batches.length < fuel) :
    readMessages fuel (batches.flatMap message ++ endOfStream) = batches.map .ok := by
  induction batches generalizing fuel with
  | nil =>
    obtain ⟨fuel, rfl⟩ := Nat.exists_eq_succ_of_ne_zero (Nat.ne_of_gt hfuel)
    rfl
  | cons batch batches ih =>
    obtain ⟨fuel, rfl⟩ := Nat.exists_eq_succ_of_ne_zero (Nat.ne_of_gt (Nat.zero_lt_of_lt hfuel))
    have hlt : batches.length < fuel := by
      rw [List.length_cons] at hfuel
      omega
    rw [List.flatMap_cons, List.append_assoc, readMessages_message, ih hlt, List.map_cons]

lemma roundTrip : Ipc.RoundTrip Unit RowBatch where
  reads := by
    intro buf _ batches (w₀ : Bytes) (w₁ : Bytes) (w₂ : Bytes) _ hnew hwrite hfinish
    have h₀ : buf ++ schemaMessage = w₀ := Except.ok.inj hnew
    have h₁ : w₀ ++ batches.flatMap message = w₁ :=
      Except.ok.inj ((write_all batches w₀).symm.trans hwrite)
    have h₂ : w₁ ++ endOfStream = w₂ := Except.ok.inj hfinish
    refine ⟨schemaMessage ++ (batches.flatMap message ++ endOfStream), ?_, ?_⟩
    · change w₂ = _
      rw [← h₂, ← h₁, ← h₀]
      simp
    · have hschema : schemaMessage.length = 64 := by simp [schemaMessage]
      have hfuel := length_le_messages batches
      change (if _ then _ else _) = _
      rw [List.take_left' hschema, List.drop_left' hschema, if_pos rfl, readMessages_stream]
      rw [List.length_append, List.length_append]
      omega
  empty := ⟨_, rfl⟩

end RowBatch

/-! ### Round trips -/

section RoundTrip

variable {S B : Type} [Ipc S B]

/-- What the writer block appends to its buffer decodes to the batches written. -/
lemma writeStream_decodes (laws : Ipc.RoundTrip S B) {details : WriterDetails} {buf f : Bytes}
    {schema : S} {batches : List B} (hschema : ∀ b ∈ batches, Ipc.schema b = schema)
    (h : writeStream details buf schema batches = .ok f) :
    ∃ ipc, f = buf ++ ipc ∧ decodeArrowIpcBatches ipc = .ok batches := by
  unfold writeStream at h
  simp only [Except.bind_eq_ok, Except.mapError_eq_ok, Except.pure_eq_ok] at h
  obtain ⟨w₀, hnew, w₁, hwrite, w₂, hfinish, rfl⟩ := h
  obtain ⟨ipc, hbuffer, hread⟩ := laws.reads buf schema batches w₀ w₁ w₂ hschema hnew hwrite hfinish
  refine ⟨ipc, hbuffer, ?_⟩
  unfold decodeArrowIpcBatches
  rw [Except.bind_eq_ok]
  refine ⟨batches.map .ok, Except.mapError_eq_ok.mpr hread, ?_⟩
  rw [Except.mapM_eq_ok, List.forall₂_map_left_iff, List.forall₂_same]
  intro b _
  rfl

lemma decodeArrowIpcBatches_nil (laws : Ipc.RoundTrip S B) :
    ∃ e, decodeArrowIpcBatches (B := B) [] = .error e := by
  obtain ⟨e, he⟩ := laws.empty
  unfold decodeArrowIpcBatches
  rw [he]
  exact ⟨_, rfl⟩

lemma frameHeader_append {tag : String} (htag : (asBytes tag).length < 256 ^ 4) (ipc : Bytes) :
    beNat ((frameHeader tag ++ ipc).take 4) = (asBytes tag).length ∧
      (frameHeader tag ++ ipc).drop (4 + (asBytes tag).length) = ipc := by
  unfold frameHeader
  constructor
  · rw [List.append_assoc, List.take_left' (length_beBytes 4 _), beNat_beBytes_of_lt htag]
  · rw [List.drop_left']
    rw [List.length_append, length_beBytes]

/-- The decoder takes the header off a frame and hands over the stream. -/
theorem decodeArrowFramedBatches_frame {width : PointerWidth} {tag : String} {ipc : Bytes}
    (htag : (asBytes tag).length < 256 ^ 4) (hfit : Allocated width (frameHeader tag ++ ipc)) :
    decodeArrowFramedBatches (B := B) width (frameHeader tag ++ ipc) = decodeArrowIpcBatches ipc := by
  obtain ⟨hlen, hdrop⟩ := frameHeader_append htag ipc
  have hlength : (frameHeader tag ++ ipc).length = 4 + (asBytes tag).length + ipc.length := by
    rw [frameHeader, List.length_append, List.length_append, length_beBytes]
  have hbits : 2 ^ (width.bits - 1) ≤ 2 ^ width.bits := Nat.pow_le_pow_right (by norm_num) (by omega)
  have hstart : ipcStart width (frameHeader tag ++ ipc) = 4 + (asBytes tag).length := by
    unfold ipcStart
    rw [hlen]
    apply Nat.mod_eq_of_lt
    unfold Allocated at hfit
    omega
  unfold decodeArrowFramedBatches
  rw [hstart, hdrop, if_neg (by omega), if_neg (by omega)]

/-- A bare stream decodes to its batch. -/
theorem ipc_stream_round_trip (laws : Ipc.RoundTrip S B) {batch : B} {stream : Bytes}
    (h : encodeBatchIpcStream batch = .ok stream) : decodeArrowIpcBatches stream = .ok [batch] := by
  obtain ⟨ipc, rfl, hdecode⟩ := writeStream_decodes laws (by simp) h
  exact hdecode

lemma ipc_frame_round_trip (laws : Ipc.RoundTrip S B) {width : PointerWidth} {tag : String}
    (htag : (asBytes tag).length < 256 ^ 4) {batch : B} {f : Bytes}
    (h : encodeIpcFrame tag batch = .ok f) (hfit : Allocated width f) :
    decodeArrowFramedBatches width f = .ok [batch] := by
  obtain ⟨ipc, rfl, hdecode⟩ := writeStream_decodes laws (by simp) h
  rw [decodeArrowFramedBatches_frame htag hfit]
  exact hdecode

/-- Without batches the frame is a header alone, and the decoder opens a reader on nothing. -/
lemma ipc_frame_multi_nil (laws : Ipc.RoundTrip S B) {width : PointerWidth} {tag : String}
    (htag : (asBytes tag).length < 256 ^ 4) {f : Bytes}
    (h : encodeIpcFrameMulti tag ([] : List B) = .ok f) (hfit : Allocated width f) :
    ∃ e, decodeArrowFramedBatches (B := B) width f = .error e := by
  have hf : frameHeader tag ++ [] = f := by
    rw [List.append_nil]
    exact Except.ok.inj h
  rw [← hf] at hfit ⊢
  rw [decodeArrowFramedBatches_frame htag hfit]
  exact decodeArrowIpcBatches_nil laws

lemma ipc_frame_multi_cons (laws : Ipc.RoundTrip S B) {width : PointerWidth} {tag : String}
    (htag : (asBytes tag).length < 256 ^ 4) {first : B} {rest : List B}
    (hschema : ∀ b ∈ first :: rest, Ipc.schema b = Ipc.schema first) {f : Bytes}
    (h : encodeIpcFrameMulti tag (first :: rest) = .ok f) (hfit : Allocated width f) :
    decodeArrowFramedBatches width f = .ok (first :: rest) := by
  obtain ⟨ipc, rfl, hdecode⟩ := writeStream_decodes laws hschema h
  rw [decodeArrowFramedBatches_frame htag hfit]
  exact hdecode

/-- A frame of one batch decodes to it; a frame of a list of batches with one schema decodes to
that list exactly when there is a batch in it. -/
theorem framed_round_trip_iff (laws : Ipc.RoundTrip S B) (width : PointerWidth) (tag : String)
    (htag : (asBytes tag).length < 2 ^ 32) :
    (∀ (batch : B) f, encodeIpcFrame tag batch = .ok f → Allocated width f →
      decodeArrowFramedBatches width f = .ok [batch]) ∧
    ∀ (batches : List B) f, (∀ b ∈ batches, ∀ b' ∈ batches, Ipc.schema b = Ipc.schema b') →
      encodeIpcFrameMulti tag batches = .ok f → Allocated width f →
        (decodeArrowFramedBatches width f = .ok batches ↔ batches ≠ []) := by
  have htag' : (asBytes tag).length < 256 ^ 4 := lt_of_lt_of_eq htag (by norm_num)
  constructor
  · intro batch f h hfit
    exact ipc_frame_round_trip laws htag' h hfit
  · intro batches f hschema h hfit
    cases batches with
    | nil =>
      obtain ⟨e, he⟩ := ipc_frame_multi_nil laws htag' h hfit
      simp [he]
    | cons first rest =>
      have hfirst : ∀ b ∈ first :: rest, Ipc.schema b = Ipc.schema first :=
        fun b hb => hschema b hb first List.mem_cons_self
      have hdecode := ipc_frame_multi_cons laws htag' hfirst h hfit
      simp [hdecode]

end RoundTrip

/-- Two batches in one frame. -/
theorem framed_round_trip_sample :
    ∃ f, encodeIpcFrameMulti "tag" [RowBatch.one, RowBatch.three] = .ok f ∧
      decodeArrowFramedBatches .w64 f = .ok [RowBatch.one, RowBatch.three] := by
  have hround := (framed_round_trip_iff RowBatch.roundTrip .w64 "tag" (by decide)).2
  have hencode : encodeIpcFrameMulti "tag" [RowBatch.one, RowBatch.three] =
      .ok (frameHeader "tag" ++ RowBatch.schemaMessage ++ RowBatch.one.message ++
        RowBatch.three.message ++ RowBatch.endOfStream) := rfl
  have hheader : (frameHeader "tag").length = 7 := by decide
  have hfit : Allocated .w64 (frameHeader "tag" ++ RowBatch.schemaMessage ++ RowBatch.one.message ++
      RowBatch.three.message ++ RowBatch.endOfStream) := by
    simp [Allocated, PointerWidth.bits, hheader, RowBatch.schemaMessage, RowBatch.endOfStream]
  exact ⟨_, hencode, (hround _ _ (fun _ _ _ _ => rfl) hencode hfit).mpr (by simp)⟩

/-- No batch at all: the decoder refuses the header of the tag `tag`. -/
theorem framed_empty_sample :
    encodeIpcFrameMulti "tag" ([] : List RowBatch) = .ok [0x00, 0x00, 0x00, 0x03, 0x74, 0x61, 0x67] ∧
      decodeArrowFramedBatches (B := RowBatch) .w64 [0x00, 0x00, 0x00, 0x03, 0x74, 0x61, 0x67] =
        .error "arrow ipc: Ipc error: Expected schema message, found empty stream." := by
  constructor
  · decide
  · decide

end WpConnectorUtils.Arrow
