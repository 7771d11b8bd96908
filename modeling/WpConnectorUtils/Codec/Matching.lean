import WpConnectorUtils.Library.Fallible
import WpConnectorUtils.Codec.Step
import WpConnectorUtils.Codec.Grammar

/-!
# Matching encoders and decoders

A decoder matches an encoder when its layers invert those of the encoder in every world.
Matching survives every call, holds for the encoder and decoder built from the same
algorithms and key, and makes every frame an encoder emits decode on its own.
-/

namespace WpConnectorUtils.Codec

variable {W : Type}

/-- `p` opens every block that `c` compresses. -/
structure CompressorMatches (c : BlockCompressor W) (p : BlockDecompressor) : Prop where
  kind : p.kind = c.kind
  inverse : ∀ b w payload w', c.compress b c.level w = (.ok payload, w') → p.decompress payload = .ok b

/-- `a` opens everything that `e` seals. -/
structure AeadMatches (e : AeadEncoder W) (a : AeadDecoder W) : Prop where
  kind : a.kind = e.kind
  inverse : ∀ nonce aad p w sealed w', e.cipher.aeadSeal nonce aad p w = (.ok sealed, w') →
    a.cipher.aeadOpen nonce aad sealed = .ok p

structure Matches (enc : LayeredEncoder W) (dec : LayeredDecoder W) : Prop where
  compress : Option.Rel CompressorMatches enc.compress dec.decompress
  encrypt : Option.Rel AeadMatches enc.encrypt dec.decrypt

lemma CompressorMatches.hold {c : BlockCompressor W} {p : BlockDecompressor}
    (h : CompressorMatches c p) (buffer : Bytes) : CompressorMatches (c.hold buffer) p :=
  ⟨h.kind, h.inverse⟩

lemma AeadMatches.count {e : AeadEncoder W} {a : AeadDecoder W} (h : AeadMatches e a)
    (input : Bytes) : AeadMatches (e.count input) a :=
  ⟨h.kind, h.inverse⟩

lemma CompressorMatches.opens {c : BlockCompressor W} {p : BlockDecompressor}
    (h : CompressorMatches c p) {w w' : W} {block : Bytes} {f : Frame} (hf : c.Packs w block f w') :
    Opens p.handle f block := by
  rw [p.opens_iff]
  exact ⟨hf.1.trans h.kind.symm, h.inverse _ _ _ _ hf.2⟩

lemma CompressorMatches.opens_all {c : BlockCompressor W} {p : BlockDecompressor}
    (h : CompressorMatches c p) {w w' : W} {blocks : List Bytes} {fs : List Frame}
    (hfs : c.PacksAll w blocks fs w') : List.Forall₂ (Opens p.handle) fs blocks := by
  induction hfs with
  | nil => exact .nil
  | cons hf _ ih => exact .cons (h.opens hf) ih

lemma AeadMatches.opens [Crates W] {e : AeadEncoder W} {a : AeadDecoder W} (h : AeadMatches e a)
    {w w' : W} {input : Bytes} {f : Frame} (hf : e.Packs w input f w') : Opens a.handle f input := by
  obtain ⟨hkind, nonce, sealed, ⟨w₁, -, hseal⟩, hpayload⟩ := hf
  rw [a.opens_iff]
  refine ⟨hkind.trans h.kind.symm, nonce, sealed, hpayload, ?_⟩
  rw [h.kind]
  exact h.inverse _ _ _ _ _ _ hseal

/-! ### Decoding in pieces -/

/-- Wherever it is appended, `bytes` decodes to `text`. -/
def Decodes (dec : LayeredDecoder W) (bytes text : Bytes) : Prop :=
  ∀ prior, Decoder.decode dec bytes prior = ⟨.ok (), dec, prior ++ text⟩

/-- Frame `f` decodes to `text` on its own. -/
def Carries (dec : LayeredDecoder W) (f : Frame) (text : Bytes) : Prop := Decodes dec f.bytes text

lemma decodeFrames_prior {handle : BlockHandler} {bytes text : Bytes}
    (h : decodeFrames handle bytes [] = (.ok (), text)) (prior : Bytes) :
    decodeFrames handle bytes prior = (.ok (), prior ++ text) := by
  rw [decodeFrames_output, h]

lemma decodeFrames_pair {handle : BlockHandler} {a b s t : Bytes}
    (ha : decodeFrames handle a [] = (.ok (), s)) (hb : decodeFrames handle b [] = (.ok (), t)) :
    decodeFrames handle (a ++ b) [] = (.ok (), s ++ t) := by
  rw [decodeFrames_append ha, decodeFrames_prior hb]

/-- A decoder of one layer decodes what its loop reads. -/
lemma decodes_iff_of_loop {dec : LayeredDecoder W} {handle : BlockHandler}
    (hdec : ∀ w prior, Decoder.decode dec w prior =
      ⟨(decodeFrames handle w prior).1, dec, (decodeFrames handle w prior).2⟩) {bytes text : Bytes} :
    Decodes dec bytes text ↔ decodeFrames handle bytes [] = (.ok (), text) := by
  unfold Decodes
  simp only [hdec, Outcome.mk.injEq, true_and]
  constructor
  · intro h
    exact Prod.ext (h []).1 (h []).2
  · intro h prior
    rw [decodeFrames_prior h]
    exact ⟨rfl, rfl⟩

lemma decodes_decompress_iff {c : BlockDecompressor} {bytes text : Bytes} :
    Decodes (⟨none, some c⟩ : LayeredDecoder W) bytes text ↔
      decodeFrames c.handle bytes [] = (.ok (), text) :=
  decodes_iff_of_loop (decode_decompress c)

lemma decodes_decrypt_iff {a : AeadDecoder W} {bytes text : Bytes} :
    Decodes (⟨some a, none⟩ : LayeredDecoder W) bytes text ↔
      decodeFrames a.handle bytes [] = (.ok (), text) :=
  decodes_iff_of_loop (decode_decrypt a)

lemma decodes_both_iff {a : AeadDecoder W} {c : BlockDecompressor} {bytes text : Bytes} :
    Decodes (⟨some a, some c⟩ : LayeredDecoder W) bytes text ↔
      ∃ mid, decodeFrames a.handle bytes [] = (.ok (), mid) ∧
        decodeFrames c.handle mid [] = (.ok (), text) := by
  constructor
  · intro h
    have h0 := h []
    rcases hout : decodeFrames a.handle bytes [] with ⟨result, mid⟩
    cases result with
    | error e =>
      rw [decode_both_of_error a c hout] at h0
      cases congrArg Outcome.result h0
    | ok u =>
      rw [decode_both_of_ok a c hout] at h0
      exact ⟨mid, rfl, Prod.ext (congrArg Outcome.result h0) (congrArg Outcome.output h0)⟩
  · rintro ⟨mid, hout, hin⟩ prior
    rw [decode_both_of_ok a c hout, decodeFrames_prior hin]

lemma decodes_plain_iff {bytes text : Bytes} :
    Decodes (⟨none, none⟩ : LayeredDecoder W) bytes text ↔ text = bytes := by
  constructor
  · intro h
    have h0 : bytes = text := congrArg Outcome.output (h [])
    exact h0.symm
  · intro h prior
    rw [h]
    rfl

lemma decodes_nil (dec : LayeredDecoder W) : Decodes dec [] [] := by
  obtain ⟨decrypt, decompress⟩ := dec
  cases decrypt <;> cases decompress
  · exact decodes_plain_iff.mpr rfl
  · exact decodes_decompress_iff.mpr (decodeFrames_nil [])
  · exact decodes_decrypt_iff.mpr (decodeFrames_nil [])
  · exact decodes_both_iff.mpr ⟨[], decodeFrames_nil [], decodeFrames_nil []⟩

/-- What decodes on its own decodes to the same text after anything else that does. -/
theorem Decodes.append {dec : LayeredDecoder W} {a b s t : Bytes} (ha : Decodes dec a s)
    (hb : Decodes dec b t) : Decodes dec (a ++ b) (s ++ t) := by
  obtain ⟨decrypt, decompress⟩ := dec
  cases decrypt <;> cases decompress
  · rw [decodes_plain_iff] at ha hb ⊢
    rw [ha, hb]
  · rw [decodes_decompress_iff] at ha hb ⊢
    exact decodeFrames_pair ha hb
  · rw [decodes_decrypt_iff] at ha hb ⊢
    exact decodeFrames_pair ha hb
  · rw [decodes_both_iff] at ha hb ⊢
    obtain ⟨mid, ha, hs⟩ := ha
    obtain ⟨mid', hb, ht⟩ := hb
    exact ⟨mid ++ mid', decodeFrames_pair ha hb, decodeFrames_pair hs ht⟩

lemma decodes_stream {dec : LayeredDecoder W} {fs : List Frame} {ds : List Bytes}
    (h : List.Forall₂ (Carries dec) fs ds) : Decodes dec (frameCode.stream fs) ds.flatten := by
  induction h with
  | nil => exact decodes_nil dec
  | cons hd _ ih => exact Decodes.append hd ih

lemma decodeFrames_single {handle : BlockHandler} {f : Frame} {d : Bytes} (h : Opens handle f d) :
    decodeFrames handle f.bytes [] = (.ok (), d) := by
  have hone := decodeFrames_stream_ok (.cons h .nil) []
  simpa using hone

lemma carries_compressed {p : BlockDecompressor} {fs : List Frame} {ds : List Bytes}
    (h : List.Forall₂ (Opens p.handle) fs ds) :
    List.Forall₂ (Carries (⟨none, some p⟩ : LayeredDecoder W)) fs ds := by
  apply h.imp
  intro f d hf
  exact decodes_decompress_iff.mpr (decodeFrames_single hf)

lemma carries_encrypted {a : AeadDecoder W} {f : Frame} {d : Bytes} (h : Opens a.handle f d) :
    Carries (⟨some a, none⟩ : LayeredDecoder W) f d :=
  decodes_decrypt_iff.mpr (decodeFrames_single h)

lemma carries_both {a : AeadDecoder W} {p : BlockDecompressor} {g : Frame} {fs : List Frame}
    {ds : List Bytes} (hg : Opens a.handle g (frameCode.stream fs))
    (h : List.Forall₂ (Opens p.handle) fs ds) :
    Carries (⟨some a, some p⟩ : LayeredDecoder W) g ds.flatten := by
  have hin := decodeFrames_stream_ok h []
  rw [List.nil_append] at hin
  exact decodes_both_iff.mpr ⟨frameCode.stream fs, decodeFrames_single hg, hin⟩

/-! ### What one call emits -/

namespace LayeredEncoder

/-- The compressor's buffer, empty without compression. -/
def pending (enc : LayeredEncoder W) : Bytes :=
  match enc.compress with
  | some c => c.buffer
  | none => []

lemma pending_compress (c : BlockCompressor W) : pending ⟨some c, none⟩ = c.buffer := rfl

variable [Crates W] {call : Call} {w w' : W} {enc enc' : LayeredEncoder W} {dec : LayeredDecoder W}
  {result : Except CodecError Unit} {fs : List Frame}

lemma Step.matches (h : Step call w enc result enc' fs w') (hm : Matches enc dec) :
    Matches enc' dec := by
  obtain ⟨decrypt, decompress⟩ := dec
  obtain ⟨hc, he⟩ := hm
  cases h <;> cases hc <;> cases he <;> constructor <;> constructor <;>
    first | assumption | exact CompressorMatches.hold ‹_› _ | exact AeadMatches.count ‹_› _

/-- Every frame a call emits decodes on its own, and when the call succeeds their texts are what
has left the pending bytes. -/
theorem Step.carries (h : Step call w enc result enc' fs w') (hm : Matches enc dec) :
    ∃ ds, List.Forall₂ (Carries dec) fs ds ∧ (result = .ok () →
      pending enc ++ call.input = ds.flatten ++ pending enc' ∧ (call = .finish → pending enc' = [])) := by
  obtain ⟨decrypt, decompress⟩ := dec
  obtain ⟨hc, he⟩ := hm
  cases h with
  | compressed h =>
    cases hc with
    | some hc =>
      cases he
      refine ⟨_, carries_compressed (hc.opens_all h.packs), fun _ => ⟨h.split, ?_⟩⟩
      rintro rfl
      exact h.rest_nil
  | jammed h =>
    cases hc with
    | some hc =>
      cases he
      refine ⟨_, carries_compressed (hc.opens_all h.packs), ?_⟩
      intro hok
      cases hok
  | idle hempty =>
    exact ⟨[], .nil, fun _ => ⟨by simp [pending, hempty], fun _ => rfl⟩⟩
  | encrypted _ hf =>
    cases he with
    | some he =>
      cases hc
      exact ⟨[call.input], .cons (carries_encrypted (he.opens hf)) .nil, fun _ =>
        ⟨by simp [pending], fun _ => rfl⟩⟩
  | refused =>
    refine ⟨[], .nil, ?_⟩
    intro hok
    cases hok
  | buffered h =>
    refine ⟨[], .nil, fun _ => ⟨h.split, ?_⟩⟩
    rintro rfl
    exact h.rest_nil
  | wrapped h _ hg =>
    cases hc with
    | some hc =>
      cases he with
      | some he =>
        refine ⟨[_], .cons (carries_both (he.opens hg) (hc.opens_all h.packs)) .nil, fun _ => ⟨?_, ?_⟩⟩
        · rw [List.flatten_singleton]
          exact h.split
        · rintro rfl
          exact h.rest_nil
  | unwrapped =>
    refine ⟨[], .nil, ?_⟩
    intro hok
    cases hok
  | broken =>
    refine ⟨[], .nil, ?_⟩
    intro hok
    cases hok

lemma Step.layered (h : Step call w enc result enc' fs w') : Layered enc' := by
  cases h <;> simp [Layered]

end LayeredEncoder

/-- The wire of the session is the frames `fs`, which carry the texts `ds`. -/
structure Carried [Crates W] (dec : LayeredDecoder W) (s : Session (LayeredEncoder W) W)
    (fs : List Frame) (ds : List Bytes) : Prop where
  layered : LayeredEncoder.Layered s.encoder
  matching : Matches s.encoder dec
  wire : s.wire = frameCode.stream fs
  carries : List.Forall₂ (Carries dec) fs ds

lemma carried_start [Crates W] {enc : LayeredEncoder W} {dec : LayeredDecoder W}
    (hl : LayeredEncoder.Layered enc) (hm : Matches enc dec) (w : W) :
    Carried dec ⟨enc, [], w⟩ [] [] :=
  ⟨hl, hm, rfl, .nil⟩

lemma Carried.extend [Crates W] {enc enc' : LayeredEncoder W} {dec : LayeredDecoder W} {wire : Bytes}
    {w w' : W} {call : Call} {result : Except CodecError Unit} {fs gs : List Frame} {ds es : List Bytes}
    (h : Carried dec ⟨enc, wire, w⟩ fs ds)
    (hstep : LayeredEncoder.Step call w enc result enc' gs w')
    (hes : List.Forall₂ (Carries dec) gs es) :
    Carried dec ⟨enc', wire ++ frameCode.stream gs, w'⟩ (fs ++ gs) (ds ++ es) := by
  refine ⟨hstep.layered, hstep.matches h.matching, ?_, List.rel_append h.carries hes⟩
  have hwire : wire = frameCode.stream fs := h.wire
  rw [hwire, frameCode.stream_append]

lemma carried_step [Crates W] {dec : LayeredDecoder W} (call : Call)
    (s : Session (LayeredEncoder W) W) (h : ∃ fs ds, Carried dec s fs ds) :
    ∃ fs ds, Carried dec ((sessions (LayeredEncoder W) W).step call s).2 fs ds := by
  obtain ⟨enc, wire, w⟩ := s
  obtain ⟨fs, ds, h⟩ := h
  obtain ⟨result, enc', gs, w', hstep, hcall⟩ := LayeredEncoder.call_step h.layered call w
  obtain ⟨es, hes, -⟩ := hstep.carries h.matching
  rw [sessions_step (hcall wire)]
  exact ⟨_, _, h.extend hstep hes⟩

/-- At every point of a run, failing calls included, the wire is a stream of frames that each
decode on their own. -/
theorem carried_run [Crates W] {dec : LayeredDecoder W} {s : Session (LayeredEncoder W) W}
    (h : ∃ fs ds, Carried dec s fs ds) (calls : List Call) :
    ∃ fs ds, Carried dec ((sessions (LayeredEncoder W) W).run calls s) fs ds :=
  Machine.run_invariant _ carried_step calls h

/-! ### Built encoders and decoders -/

section Build

variable [Crates W]

lemma compressor_matches (laws : Crates.RoundTrip W) {cfg cfg' : CompressConfig}
    (h : cfg'.algo = cfg.algo) :
    CompressorMatches (buildCompressor cfg : BlockCompressor W) (buildDecompressor W cfg') := by
  unfold buildCompressor buildDecompressor
  rw [h]
  cases cfg.algo with
  | gzip =>
    refine ⟨rfl, ?_⟩
    intro b w payload w' hc
    simp only [gzipCompress, Prod.mk.injEq, Except.mapError_eq_ok] at hc
    simp only [gzipDecompress, Except.mapError_eq_ok]
    exact laws.gz _ _ _ _ _ (Prod.ext hc.1 hc.2)
  | zstd =>
    refine ⟨rfl, ?_⟩
    intro b w payload w' hc
    simp only [zstdCompress, Prod.mk.injEq, Except.mapError_eq_ok] at hc
    simp only [zstdDecompress, Except.mapError_eq_ok]
    exact laws.zstd _ _ _ _ _ (Prod.ext hc.1 hc.2)

lemma aeadCipher_inverse (laws : Crates.OpenInverts W) {cfg : EncryptConfig} {cipher : AeadCipher W}
    (h : buildAeadCipher cfg = .ok cipher) (nonce : Nonce) (aad p : Bytes) (w : W) (sealed : Bytes)
    (w' : W) (hs : cipher.aeadSeal nonce aad p w = (.ok sealed, w')) :
    cipher.aeadOpen nonce aad sealed = .ok p := by
  unfold buildAeadCipher at h
  split at h
  · split at h
    · cases h
    split at h
    · cases h
    · cases h
      simp only [ringAes256Gcm, Prod.mk.injEq, Except.mapError_eq_ok] at hs ⊢
      exact laws.ring _ _ _ _ _ _ _ (Prod.ext hs.1 hs.2)
  · split at h
    · cases h
    · cases h
      simp only [sm4GcmCipher, Prod.mk.injEq, Except.mapError_eq_ok, Except.ok.injEq] at hs ⊢
      exact laws.sm4 _ _ _ _ _ _ _ (Prod.ext hs.1 hs.2)

lemma aead_matches (laws : Crates.OpenInverts W) {cfg : EncryptConfig} {e : AeadEncoder W}
    {a : AeadDecoder W} (he : buildEncryptor cfg = .ok e) (ha : buildDecryptor cfg = .ok a) :
    AeadMatches e a := by
  unfold buildEncryptor at he
  unfold buildDecryptor at ha
  cases hcipher : buildAeadCipher (W := W) cfg with
  | error err =>
    rw [hcipher] at he
    cases he
  | ok cipher =>
    rw [hcipher] at he ha
    cases he
    cases ha
    exact ⟨rfl, aeadCipher_inverse laws hcipher⟩

/-- An encoder and a decoder built with the same algorithms and key match. -/
theorem build_matches (laws : Crates.RoundTrip W) {compression compression' : Option CompressConfig}
    {encryption : Option EncryptConfig} {enc : LayeredEncoder W} {dec : LayeredDecoder W}
    (halgo : compression'.map CompressConfig.algo = compression.map CompressConfig.algo)
    (henc : buildEncoder compression encryption = .ok enc)
    (hdec : buildDecoder compression' encryption = .ok dec) : Matches enc dec := by
  obtain ⟨hc, he⟩ := buildEncoder_ok henc
  obtain ⟨hd, ha⟩ := buildDecoder_ok hdec
  constructor
  · rw [hc, hd]
    cases compression <;> cases compression' <;> simp at halgo ⊢
    exact compressor_matches laws halgo
  · generalize enc.encrypt = encrypt at he
    generalize dec.decrypt = decrypt at ha
    cases he with
    | none =>
      cases ha
      exact .none
    | some he =>
      cases ha with
      | some ha => exact .some (aead_matches laws.toOpenInverts he ha)

lemma build_pending {compression : Option CompressConfig} {encryption : Option EncryptConfig}
    {enc : LayeredEncoder W} (h : buildEncoder compression encryption = .ok enc) :
    LayeredEncoder.pending enc = [] := by
  unfold LayeredEncoder.pending
  rw [(buildEncoder_ok h).1]
  cases compression with
  | none => rfl
  | some cfg =>
    unfold buildCompressor
    cases cfg.algo <;> rfl

lemma build_layered {compression : Option CompressConfig} {encryption : Option EncryptConfig}
    {enc : LayeredEncoder W} (h : compression ≠ none ∨ encryption ≠ none)
    (henc : buildEncoder compression encryption = .ok enc) : LayeredEncoder.Layered enc := by
  obtain ⟨hc, he⟩ := buildEncoder_ok henc
  rintro rfl
  rcases h with h | h
  · cases compression with
    | none => exact h rfl
    | some cfg => cases hc
  · cases he
    exact h rfl

end Build

end WpConnectorUtils.Codec
