import WpConnectorUtils.Codec.Matching
import WpConnectorUtils.Codec.Statistics

/-!
# Mismatched decoders

A decoder whose layers are of other kinds refuses the first frame of the wire, before it appends
anything. With encryption in common and different compression, the frames are all opened, and the
first inner one is refused.
-/

namespace WpConnectorUtils.Codec

variable {W : Type}

/-! ### The first frame -/

lemma decodeFrames_refused {handle : BlockHandler} {f : Frame} {e : CodecError}
    (h : handle f.kind f.payload = .error e) (rest output : Bytes) :
    decodeFrames handle (f.bytes ++ rest) output = (.error e, output) := by
  rw [decodeFrames_frame, h]

lemma BlockDecompressor.refuses {p : BlockDecompressor} {f : Frame} (h : f.kind ≠ p.kind)
    (rest output : Bytes) : decodeFrames p.handle (f.bytes ++ rest) output =
      (.error (unexpectedKind f.kind p.kind), output) := by
  apply decodeFrames_refused
  unfold BlockDecompressor.handle
  rw [if_pos h]

lemma AeadDecoder.refuses {a : AeadDecoder W} {f : Frame} (h : f.kind ≠ a.kind)
    (rest output : Bytes) : decodeFrames a.handle (f.bytes ++ rest) output =
      (.error (unexpectedKind f.kind a.kind), output) := by
  apply decodeFrames_refused
  unfold AeadDecoder.handle
  rw [if_pos h]

/-- The kind of the frames that a decoder takes first. -/
def LayeredDecoder.outerKind (dec : LayeredDecoder W) : Option FrameKind :=
  match dec.decrypt, dec.decompress with
  | some a, _ => some a.kind
  | none, some p => some p.kind
  | none, none => none

lemma decode_refuses {dec : LayeredDecoder W} {f : Frame} {expected : FrameKind}
    (hkind : LayeredDecoder.outerKind dec = some expected) (hne : f.kind ≠ expected)
    (rest prior : Bytes) : Decoder.decode dec (f.bytes ++ rest) prior =
      ⟨.error (unexpectedKind f.kind expected), dec, prior⟩ := by
  obtain ⟨decrypt, decompress⟩ := dec
  cases decrypt with
  | none =>
    cases decompress with
    | none => cases hkind
    | some p =>
      cases hkind
      rw [decode_decompress, p.refuses hne]
  | some a =>
    cases hkind
    cases decompress with
    | none => rw [decode_decrypt, a.refuses hne]
    | some p => rw [decode_both_of_error a p (a.refuses hne rest [])]

/-! ### Kinds of built encoders and decoders -/

lemma outermostKind_of_layer {compression : Option CompressConfig} {encryption : Option EncryptConfig}
    (h : compression ≠ none ∨ encryption ≠ none) :
    ∃ kind, outermostKind compression encryption = some kind := by
  cases encryption with
  | some cfg => exact ⟨_, rfl⟩
  | none =>
    cases compression with
    | none => simp at h
    | some cfg =>
      obtain ⟨algo, level⟩ := cfg
      cases algo
      · exact ⟨_, rfl⟩
      · exact ⟨_, rfl⟩

section Build

variable [Crates W] {compression : Option CompressConfig} {encryption : Option EncryptConfig}

lemma buildDecryptor_kind {cfg : EncryptConfig} {a : AeadDecoder W} (h : buildDecryptor cfg = .ok a) :
    a.kind = cipherFrameKind cfg.cipher := by
  unfold buildDecryptor at h
  split at h
  · cases h
  · cases h
    rfl

/-- Both sides name the kind of the outermost layer alike. -/
lemma outerKind_of_build {dec : LayeredDecoder W} (h : buildDecoder compression encryption = .ok dec) :
    LayeredDecoder.outerKind dec = outermostKind compression encryption := by
  obtain ⟨hc, ha⟩ := buildDecoder_ok h
  obtain ⟨decrypt, decompress⟩ := dec
  dsimp only at hc
  subst hc
  cases ha with
  | none =>
    cases compression with
    | none => rfl
    | some cfg =>
      obtain ⟨algo, level⟩ := cfg
      cases algo <;> rfl
  | some ha =>
    rename_i cfg a
    change some a.kind = some (cipherFrameKind cfg.cipher)
    rw [buildDecryptor_kind ha]

/-- Whatever was called, the wire is frames of the outermost kind. -/
lemma wire_kinds {enc : LayeredEncoder W} (hlayer : compression ≠ none ∨ encryption ≠ none)
    (henc : buildEncoder compression encryption = .ok enc) (calls : List Call) (w : W) :
    ∃ fs, ((sessions (LayeredEncoder W) W).run calls ⟨enc, [], w⟩).wire = frameCode.stream fs ∧
      ∀ f ∈ fs, outermostKind compression encryption = some f.kind := by
  obtain ⟨hc, he⟩ := buildEncoder_ok henc
  obtain ⟨compress, encrypt⟩ := enc
  cases he with
  | none =>
    cases compression with
    | none => simp at hlayer
    | some cfg =>
      dsimp only [Option.map] at hc
      subst hc
      obtain ⟨c, fs, -, -, hwire, hfs⟩ := compressing_of_run (buildCompressor cfg) calls [] w
      refine ⟨fs, hwire, ?_⟩
      intro f hf
      rw [outermostKind_compress (W := W), hfs f hf]
  | some he =>
    rename_i cfg e
    obtain ⟨cipher, -, rfl⟩ := buildEncryptor_ok he
    obtain ⟨fs, ds, hrun⟩ := accounted_of_run compress cipher (cipherFrameKind cfg.cipher) calls [] w
    refine ⟨fs, hrun.wire, ?_⟩
    intro f hf
    rw [kinds_of_sealed hrun.sealed f hf]
    rfl

end Build

/-! ### Frames within frames -/

/-- Outer frame `g` opens to inner frames of one kind, and to at least one. -/
def Encloses (a : AeadDecoder W) (kind : FrameKind) (g : Frame) (fs : List Frame) : Prop :=
  fs ≠ [] ∧ (∀ f ∈ fs, f.kind = kind) ∧ Opens a.handle g (frameCode.stream fs)

/-- The session compresses and encrypts, and its wire is outer frames that enclose inner ones. -/
def Nested (a : AeadDecoder W) (kind : FrameKind) (s : Session (LayeredEncoder W) W) : Prop :=
  ∃ c e gs fss, s.encoder = ⟨some c, some e⟩ ∧ c.kind = kind ∧ AeadMatches e a ∧
    s.wire = frameCode.stream gs ∧ List.Forall₂ (Encloses a kind) gs fss

/-- The outer layer opens the whole wire, and the inner one refuses the first frame in it. -/
lemma Nested.refused {a : AeadDecoder W} {p : BlockDecompressor} {kind : FrameKind}
    {s : Session (LayeredEncoder W) W} (h : Nested a kind s) (hne : kind ≠ p.kind)
    (hwire : s.wire ≠ []) (prior : Bytes) :
    Decoder.decode (⟨some a, some p⟩ : LayeredDecoder W) s.wire prior =
      ⟨.error (unexpectedKind kind p.kind), ⟨some a, some p⟩, prior⟩ := by
  obtain ⟨c, e, gs, fss, -, -, -, hstream, hgs⟩ := h
  have hopens : List.Forall₂ (Opens a.handle) gs (fss.map frameCode.stream) := by
    rw [List.forall₂_map_right_iff]
    exact hgs.imp fun g fs hg => hg.2.2
  have houter : decodeFrames a.handle s.wire [] = (.ok (), (fss.map frameCode.stream).flatten) := by
    rw [hstream]
    exact decodeFrames_stream_ok hopens []
  rw [decode_both_of_ok a p houter]
  cases hgs with
  | nil => exact absurd hstream hwire
  | @cons g fs gs fss hg hrest =>
    obtain ⟨hfs, hkinds, -⟩ := hg
    obtain ⟨f, fs, rfl⟩ := List.exists_cons_of_ne_nil hfs
    have hf : f.kind = kind := hkinds f List.mem_cons_self
    have hfront : ((((f :: fs) :: fss).map frameCode.stream).flatten) =
        f.bytes ++ (frameCode.stream fs ++ (fss.map frameCode.stream).flatten) := by
      rw [List.map_cons, List.flatten_cons, PrefixCode.stream_cons, List.append_assoc]
      rfl
    have hdiff : f.kind ≠ p.kind := by
      rw [hf]
      exact hne
    rw [hfront, p.refuses hdiff, hf]

section Nested

variable [Crates W] {a : AeadDecoder W} {call : Call} {w w' : W} {c : BlockCompressor W}
  {e : AeadEncoder W} {enc' : LayeredEncoder W} {result : Except CodecError Unit} {gs : List Frame}

/-- Whether it fails or not, a call adds only frames that enclose some of the compressor's. -/
lemma LayeredEncoder.Step.encloses
    (h : LayeredEncoder.Step call w ⟨some c, some e⟩ result enc' gs w') (he : AeadMatches e a) :
    ∃ rest e' fss, enc' = ⟨some (c.hold rest), some e'⟩ ∧ AeadMatches e' a ∧
      List.Forall₂ (Encloses a c.kind) gs fss := by
  cases h with
  | buffered => exact ⟨_, e, [], rfl, he, .nil⟩
  | wrapped hemits hfs hg =>
    have hencloses := And.intro hfs (And.intro hemits.packs.kinds (he.opens hg))
    exact ⟨_, _, [_], rfl, he.count _, .cons hencloses .nil⟩
  | unwrapped => exact ⟨_, e, [], rfl, he, .nil⟩
  | broken => exact ⟨_, e, [], rfl, he, .nil⟩

lemma nested_step {kind : FrameKind} (call : Call) (s : Session (LayeredEncoder W) W)
    (h : Nested a kind s) : Nested a kind ((sessions (LayeredEncoder W) W).step call s).2 := by
  obtain ⟨enc, wire, w⟩ := s
  obtain ⟨c, e, gs, fss, rfl, hkind, he, hwire, hgs⟩ := h
  dsimp only at hwire
  have hl : LayeredEncoder.Layered (⟨some c, some e⟩ : LayeredEncoder W) := by
    simp [LayeredEncoder.Layered]
  obtain ⟨result, enc', hs, w', hstep, hcall⟩ := LayeredEncoder.call_step hl call w
  obtain ⟨rest, e', fss', rfl, he', hhs⟩ := hstep.encloses he
  rw [hkind] at hhs
  rw [sessions_step (hcall wire)]
  refine ⟨c.hold rest, e', gs ++ hs, fss ++ fss', rfl, hkind, he', ?_, List.rel_append hgs hhs⟩
  rw [hwire, frameCode.stream_append]

lemma nested_run {kind : FrameKind} {s : Session (LayeredEncoder W) W} (h : Nested a kind s)
    (calls : List Call) : Nested a kind ((sessions (LayeredEncoder W) W).run calls s) :=
  Machine.run_invariant _ nested_step calls h

end Nested

/-! ### The two mismatches -/

lemma compressor_kinds [Crates W] {cfg cfg' : CompressConfig} (h : cfg.algo ≠ cfg'.algo) :
    (buildCompressor cfg : BlockCompressor W).kind ≠ (buildDecompressor W cfg').kind := by
  obtain ⟨algo, level⟩ := cfg
  obtain ⟨algo', level'⟩ := cfg'
  cases algo <;> cases algo'
  · exact absurd rfl h
  · exact nofun
  · exact nofun
  · exact absurd rfl h

/-- What a decoder disagrees on: the outermost kind, or the compression below the same encryption. -/
inductive Mismatch (compression compression' : Option CompressConfig) :
    Option EncryptConfig → Option EncryptConfig → Prop
  | outer {encryption encryption' : Option EncryptConfig}
      (h : outermostKind compression encryption ≠ outermostKind compression' encryption') :
      Mismatch compression compression' encryption encryption'
  | inner {cfg : EncryptConfig} {zip zip' : CompressConfig} (hzip : compression = some zip)
      (hzip' : compression' = some zip') (h : zip.algo ≠ zip'.algo) :
      Mismatch compression compression' (some cfg) (some cfg)

/-- A wire with a frame is refused by a mismatched decoder, which appends nothing. -/
theorem mismatch_refused [Crates W] (hopen : Crates.OpenInverts W)
    {compression compression' : Option CompressConfig} {encryption encryption' : Option EncryptConfig}
    {enc : LayeredEncoder W} {dec : LayeredDecoder W}
    (hlayer : compression ≠ none ∨ encryption ≠ none)
    (hlayer' : compression' ≠ none ∨ encryption' ≠ none)
    (henc : buildEncoder compression encryption = .ok enc)
    (hdec : buildDecoder compression' encryption' = .ok dec)
    (hdiff : Mismatch compression compression' encryption encryption') (calls : List Call) (w : W)
    (hwire : ((sessions (LayeredEncoder W) W).run calls ⟨enc, [], w⟩).wire ≠ []) (prior : Bytes) :
    ∃ kind expected, kind ≠ expected ∧
      Decoder.decode dec ((sessions (LayeredEncoder W) W).run calls ⟨enc, [], w⟩).wire prior =
        ⟨.error (unexpectedKind kind expected), dec, prior⟩ := by
  cases hdiff with
  | outer hkind =>
    obtain ⟨fs, hstream, hkinds⟩ := wire_kinds hlayer henc calls w
    obtain ⟨expected, hexpected⟩ := outermostKind_of_layer hlayer'
    rw [hstream] at hwire ⊢
    cases fs with
    | nil => exact absurd rfl hwire
    | cons f fs =>
      have hne : f.kind ≠ expected := by
        intro heq
        rw [hkinds f List.mem_cons_self, hexpected, heq] at hkind
        exact hkind rfl
      have houter := (outerKind_of_build hdec).trans hexpected
      exact ⟨f.kind, expected, hne, decode_refuses houter hne (frameCode.stream fs) prior⟩
  | @inner cfg zip zip' hzip hzip' halgo =>
    subst hzip hzip'
    obtain ⟨hc, he⟩ := buildEncoder_ok henc
    obtain ⟨hp, ha⟩ := buildDecoder_ok hdec
    obtain ⟨compress, encrypt⟩ := enc
    obtain ⟨decrypt, decompress⟩ := dec
    dsimp only [Option.map] at hc hp
    subst hc hp
    cases he with
    | some he =>
      cases ha with
      | some ha =>
        rename_i e a
        have hstart : Nested a (buildCompressor zip : BlockCompressor W).kind
            ⟨⟨some (buildCompressor zip), some e⟩, [], w⟩ :=
          ⟨_, e, [], [], rfl, rfl, aead_matches hopen he ha, rfl, .nil⟩
        have hne := compressor_kinds (W := W) halgo
        exact ⟨_, _, hne, (nested_run hstart calls).refused hne hwire prior⟩

/-- Zstd frames under AES-256-GCM, decoded as gzip under the same key. -/
theorem mismatch_refused_sample :
    let wire := ((sessions (LayeredEncoder SampleWorld) SampleWorld).run
      [.encode SampleWorld.text, .finish] ⟨sampleEncoder, [], ⟨true⟩⟩).wire
    let dec : LayeredDecoder SampleWorld := ⟨some ⟨ringAes256Gcm SampleWorld.key, .aes256Gcm⟩,
      some (buildDecompressor SampleWorld { algo := .gzip })⟩
    ∃ kind expected, kind ≠ expected ∧
      Decoder.decode dec wire [0x00] = ⟨.error (unexpectedKind kind expected), dec, [0x00]⟩ := by
  have hwire : ((sessions (LayeredEncoder SampleWorld) SampleWorld).run
      [.encode SampleWorld.text, .finish] ⟨sampleEncoder, [], ⟨true⟩⟩).wire ≠ [] := by
    have hfirst := LayeredEncoder.step_both_short (buildCompressor {} : BlockCompressor SampleWorld)
      ⟨ringAes256Gcm SampleWorld.key, .aes256Gcm, 0, 0⟩ SampleWorld.text [] ⟨true⟩ (by decide)
    change ((sessions (LayeredEncoder SampleWorld) SampleWorld).step .finish
      ((sessions (LayeredEncoder SampleWorld) SampleWorld).step (.encode SampleWorld.text)
        ⟨sampleEncoder, [], ⟨true⟩⟩).2).2.wire ≠ []
    unfold sampleEncoder
    rw [hfirst]
    decide
  exact @mismatch_refused SampleWorld _ SampleWorld.roundTrip.toOpenInverts (some {})
    (some { algo := .gzip }) (some ⟨.aes256Gcm, SampleWorld.key⟩) (some ⟨.aes256Gcm, SampleWorld.key⟩)
    sampleEncoder _ (.inl (by simp)) (.inl (by simp)) rfl rfl (.inner rfl rfl (by decide)) _ ⟨true⟩
    hwire [0x00]

end WpConnectorUtils.Codec
