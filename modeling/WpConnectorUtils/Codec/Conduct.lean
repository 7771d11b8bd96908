import WpConnectorUtils.Library.Fallible
import WpConnectorUtils.Codec.Grammar
import WpConnectorUtils.Codec.Step

/-!
# What calls do to the world, and the errors they raise

A reflexive and transitive relation that every call to another crate keeps between the worlds
before and after it is kept by every call of an encoder, failing ones included. The errors of an
encoder are those of the crates its layers call, and of the frame's length field.
-/

namespace WpConnectorUtils.Codec

variable {W : Type} {R : W → W → Prop}

/-! ### The world -/

/-- Compression in every world keeps to `R`. -/
def BlockCompressor.Keeps (R : W → W → Prop) (c : BlockCompressor W) : Prop :=
  ∀ block w, R w (c.compress block c.level w).2

/-- So do the nonce source and the seal. -/
def AeadEncoder.Keeps [Crates W] (R : W → W → Prop) (e : AeadEncoder W) : Prop :=
  (∀ w : W, R w (newNonce w).2) ∧ ∀ nonce aad p w, R w (e.cipher.aeadSeal nonce aad p w).2

lemma BlockCompressor.Keeps.hold {c : BlockCompressor W} (h : c.Keeps R) (buffer : Bytes) :
    (c.hold buffer).Keeps R := h

lemma AeadEncoder.Keeps.count [Crates W] {e : AeadEncoder W} (h : e.Keeps R) (input : Bytes) :
    (e.count input).Keeps R := h

namespace BlockCompressor

variable {c : BlockCompressor W}

lemma putCompressed_keeps (hc : c.Keeps R) (block output : Bytes) (w : W) :
    R w (c.putCompressed block output w).2 := by
  have hblock := hc block w
  unfold putCompressed
  rcases hcompress : c.compress block c.level w with ⟨compressed, w'⟩
  rw [hcompress] at hblock
  cases compressed <;> exact hblock

lemma flush_keeps [IsPreorder W R] (hc : c.Keeps R) (buffer output : Bytes) (w : W) :
    R w ((c.hold buffer).flush output w).2 := by
  induction buffer using Chunks.chunk_induction compressBlockSize_pos generalizing output w with
  | short buffer hshort =>
    rw [flush_short hshort]
    exact refl_of R w
  | append block buffer hblock ih =>
    rw [flush_block hblock]
    have hput := putCompressed_keeps hc block output w
    rcases hresult : c.putCompressed block output w with ⟨⟨result, out⟩, w'⟩
    rw [hresult] at hput
    cases result with
    | error e => exact hput
    | ok u => exact trans_of R hput (ih out w')

lemma call_keeps [IsPreorder W R] (hc : c.Keeps R) (call : Call) (output : Bytes) (w : W) :
    R w (Encoder.call c output w call).2 := by
  cases call with
  | encode chunk => exact flush_keeps hc (c.buffer ++ chunk) output w
  | finish =>
    by_cases hempty : c.buffer = []
    · rw [call_of_emits (.finishEmpty hempty)]
      exact refl_of R w
    · change R w (c.finish output w).2
      rw [finish_eq c hempty]
      exact putCompressed_keeps hc c.buffer output w

end BlockCompressor

lemma AeadEncoder.encode_keeps [Crates W] [IsPreorder W R] {e : AeadEncoder W} (he : e.Keeps R)
    (input output : Bytes) (w : W) : R w (e.encode input output w).2 := by
  unfold encode
  split
  · exact refl_of R w
  have hdraw := he.1 w
  rcases hnonce : newNonce w with ⟨drawn, w₁⟩
  rw [hnonce] at hdraw
  cases drawn with
  | error err => exact hdraw
  | ok nonce =>
    have hsealed := he.2 nonce [e.kind.toU8] input w₁
    dsimp only
    rcases hseal : e.cipher.aeadSeal nonce [e.kind.toU8] input w₁ with ⟨sealed, w₂⟩
    rw [hseal] at hsealed
    have hworld := trans_of R hdraw hsealed
    cases sealed with
    | error err => exact hworld
    | ok sealed =>
      dsimp only
      rcases putBlock output e.kind (nonce.val ++ sealed) with ⟨result, out⟩
      cases result <;> exact hworld

/-- Every layer keeps to `R`. -/
structure LayeredEncoder.Keeps [Crates W] (R : W → W → Prop) (enc : LayeredEncoder W) : Prop where
  compress : ∀ c, enc.compress = some c → c.Keeps R
  encrypt : ∀ e, enc.encrypt = some e → e.Keeps R

/-- Every call to another crate keeps `R` between the worlds. -/
structure Crates.Keeps [Crates W] (R : W → W → Prop) : Prop where
  gz : ∀ b level w, R w (gzEncode b level w).2
  zstd : ∀ b level w, R w (zstdCompress b level w).2
  random : ∀ w : W, R w (randomFill w).2
  ring : ∀ key nonce aad p w, R w (ringSeal key nonce aad p w).2
  sm4 : ∀ key nonce aad p w, R w (sm4Encrypt key nonce aad p w).2

section Layers

variable [Crates W]

theorem LayeredEncoder.call_keeps [IsPreorder W R] {enc : LayeredEncoder W}
    (h : LayeredEncoder.Keeps R enc) (call : Call) (output : Bytes) (w : W) :
    R w (Encoder.call enc output w call).2 := by
  obtain ⟨compress, encrypt⟩ := enc
  obtain ⟨hc, he⟩ := h
  dsimp only at hc he
  cases compress with
  | none =>
    cases encrypt with
    | none => cases call <;> exact refl_of R w
    | some e =>
      rw [call_encrypt_only]
      exact e.encode_keeps (he e rfl) call.input output w
  | some c =>
    cases encrypt with
    | none =>
      rw [call_compress_only]
      exact BlockCompressor.call_keeps (hc c rfl) call output w
    | some e =>
      have hcall := BlockCompressor.call_keeps (hc c rfl) call [] w
      rcases hmid : Encoder.call c [] w call with ⟨⟨result, c', mid⟩, w'⟩
      rw [hmid] at hcall
      cases result with
      | error err =>
        rw [call_both_of_error hmid]
        exact hcall
      | ok u =>
        rw [call_both_of_ok hmid]
        exact trans_of R hcall (e.encode_keeps (he e rfl) mid output w')

lemma LayeredEncoder.Step.keeps {call : Call} {w w' : W} {enc enc' : LayeredEncoder W}
    {result : Except CodecError Unit} {fs : List Frame}
    (hstep : LayeredEncoder.Step call w enc result enc' fs w') (h : LayeredEncoder.Keeps R enc) :
    LayeredEncoder.Keeps R enc' := by
  obtain ⟨hc, he⟩ := h
  cases hstep <;> constructor <;> rintro _ ⟨⟩ <;>
    first | exact (hc _ rfl).hold _ | exact (he _ rfl).count _ | exact he _ rfl

lemma build_compressor_keeps (hR : Crates.Keeps R) (cfg : CompressConfig) :
    (buildCompressor cfg : BlockCompressor W).Keeps R := by
  obtain ⟨algo, level⟩ := cfg
  intro block w
  cases algo with
  | gzip => exact hR.gz _ _ w
  | zstd => exact hR.zstd _ _ w

lemma build_encryptor_keeps (hR : Crates.Keeps R) {cfg : EncryptConfig} {e : AeadEncoder W}
    (h : buildEncryptor cfg = .ok e) : e.Keeps R := by
  obtain ⟨cipher, hcipher, rfl⟩ := buildEncryptor_ok h
  obtain ⟨rfl, -⟩ := buildAeadCipher_eq hcipher
  refine ⟨hR.random, ?_⟩
  intro nonce aad p w
  unfold EncryptConfig.cipherOf
  cases cfg.cipher with
  | aes256Gcm => exact hR.ring _ _ _ _ w
  | sm4Gcm => exact hR.sm4 _ _ _ _ w

theorem build_keeps (hR : Crates.Keeps R) {compression : Option CompressConfig}
    {encryption : Option EncryptConfig} {enc : LayeredEncoder W}
    (henc : buildEncoder compression encryption = .ok enc) : LayeredEncoder.Keeps R enc := by
  obtain ⟨hc, he⟩ := buildEncoder_ok henc
  constructor
  · intro c hcompress
    rw [hc] at hcompress
    obtain ⟨cfg, rfl, rfl⟩ := Option.map_eq_some_iff.mp hcompress
    exact build_compressor_keeps hR cfg
  · intro e hencrypt
    rw [hencrypt] at he
    cases he with
    | some he => exact build_encryptor_keeps hR he

end Layers

/-! ### Errors of the layers -/

/-- Some message of the `Config` variant. -/
def IsConfig (e : CodecError) : Prop := ∃ m, e = .config m

def IsCompress (e : CodecError) : Prop := ∃ m, e = .compress m

def IsDecode (e : CodecError) : Prop := ∃ m, e = .decode m

lemma putBlock_raises (out : Bytes) (kind : FrameKind) (payload : Bytes) :
    Except.Raises IsCompress (putBlock out kind payload).1 := by
  unfold putBlock
  split
  · exact Except.raises_ok _ ()
  · exact Except.raises_error ⟨_, rfl⟩

namespace BlockCompressor

variable {c : BlockCompressor W}

/-- The compression function raises `Compress` errors only. -/
def Raises (c : BlockCompressor W) : Prop :=
  ∀ block w, Except.Raises IsCompress (c.compress block c.level w).1

lemma putCompressed_raises (hc : c.Raises) (block output : Bytes) (w : W) :
    Except.Raises IsCompress (c.putCompressed block output w).1.1 := by
  have hblock := hc block w
  unfold putCompressed
  rcases hcompress : c.compress block c.level w with ⟨compressed, w'⟩
  rw [hcompress] at hblock
  cases compressed with
  | error e => exact Except.raises_error (hblock e rfl)
  | ok payload => exact putBlock_raises output c.kind payload

lemma flush_raises (hc : c.Raises) (buffer output : Bytes) (w : W) :
    Except.Raises IsCompress ((c.hold buffer).flush output w).1.result := by
  induction buffer using Chunks.chunk_induction compressBlockSize_pos generalizing output w with
  | short buffer hshort =>
    rw [flush_short hshort]
    exact Except.raises_ok _ ()
  | append block buffer hblock ih =>
    rw [flush_block hblock]
    have hput := putCompressed_raises hc block output w
    rcases hresult : c.putCompressed block output w with ⟨⟨result, out⟩, w'⟩
    rw [hresult] at hput
    cases result with
    | error e => exact Except.raises_error (hput e rfl)
    | ok u => exact ih out w'

lemma call_raises (hc : c.Raises) (call : Call) (output : Bytes) (w : W) :
    Except.Raises IsCompress (Encoder.call c output w call).1.result := by
  cases call with
  | encode chunk => exact flush_raises hc (c.buffer ++ chunk) output w
  | finish =>
    by_cases hempty : c.buffer = []
    · rw [call_of_emits (.finishEmpty hempty)]
      exact Except.raises_ok _ ()
    · change Except.Raises IsCompress (c.finish output w).1.result
      rw [finish_eq c hempty]
      exact putCompressed_raises hc c.buffer output w

end BlockCompressor

/-- The errors of an encode in world `w`. -/
inductive AeadEncoder.Fails [Crates W] (e : AeadEncoder W) (input : Bytes) (w : W) :
    CodecError → Prop
  | nonce {err : CodecError} {w' : W} (h : newNonce w = (.error err, w')) : Fails e input w err
  | sealing {nonce : Nonce} {w₁ w' : W} {err : CodecError}
      (h : e.cipher.aeadSeal nonce [e.kind.toU8] input w₁ = (.error err, w')) :
      Fails e input w err
  | tooLarge {nonce : Nonce} {sealed : Bytes} {w' : W} (h : e.Seals w input nonce sealed w')
      (hlarge : u32Limit ≤ (nonce.val ++ sealed).length) :
      Fails e input w
        (.compress s!"block too large: {(nonce.val ++ sealed).length} bytes")

lemma AeadEncoder.encode_raises [Crates W] (e : AeadEncoder W) (input output : Bytes) (w : W) :
    Except.Raises (e.Fails input w) (e.encode input output w).1.result := by
  unfold encode
  split
  · exact Except.raises_ok _ ()
  rcases hnonce : newNonce w with ⟨drawn, w₁⟩
  cases drawn with
  | error err => exact Except.raises_error (.nonce hnonce)
  | ok nonce =>
    dsimp only
    rcases hseal : e.cipher.aeadSeal nonce [e.kind.toU8] input w₁ with ⟨sealed, w₂⟩
    cases sealed with
    | error err => exact Except.raises_error (.sealing hseal)
    | ok sealed =>
      dsimp only
      by_cases hfits : (nonce.val ++ sealed).length < u32Limit
      · unfold putBlock
        rw [if_pos hfits]
        exact Except.raises_ok _ ()
      · unfold putBlock
        rw [if_neg hfits]
        exact Except.raises_error (.tooLarge ⟨w₁, hnonce, hseal⟩ (Nat.le_of_not_lt hfits))

/-! ### Errors of built encoders -/

section Build

variable [Crates W] {compression : Option CompressConfig} {encryption : Option EncryptConfig}

/-- The errors of a call in world `w`. Without compression, `Compress` is about the length of the
sealed input. -/
inductive EncodeError (compression : Option CompressConfig) (encryption : Option EncryptConfig)
    (call : Call) (w : W) : CodecError → Prop
  | compress {m : String} (h : compression.isSome) : EncodeError compression encryption call w (.compress m)
  | tooLarge {cfg : EncryptConfig} {e : AeadEncoder W} {nonce : Nonce} {sealed : Bytes} {w' : W}
      (hnone : compression = none) (hcfg : encryption = some cfg) (he : buildEncryptor cfg = .ok e)
      (hsealed : e.Seals w call.input nonce sealed w')
      (hlarge : u32Limit ≤ (nonce.val ++ sealed).length) :
      EncodeError compression encryption call w
        (.compress s!"block too large: {(nonce.val ++ sealed).length} bytes")
  | nonce (h : encryption.isSome) :
      EncodeError compression encryption call w (.encrypt "nonce generation failed")
  | sealing {cfg : EncryptConfig} (hcfg : encryption = some cfg) (haes : cfg.cipher = .aes256Gcm) :
      EncodeError compression encryption call w (.encrypt "aes-gcm seal failed")

/-- The cipher and the kind are those that `build_encryptor` gives. -/
def AeadEncoder.BuiltFor (encryption : Option EncryptConfig) (e : AeadEncoder W) : Prop :=
  ∃ cfg e₀, encryption = some cfg ∧ buildEncryptor cfg = .ok e₀ ∧ e.cipher = e₀.cipher ∧
    e.kind = e₀.kind

/-- The layers are those of a configuration, whatever they have collected and counted. -/
structure Configured (compression : Option CompressConfig) (encryption : Option EncryptConfig)
    (enc : LayeredEncoder W) : Prop where
  some_compress : ∀ c, enc.compress = some c → compression.isSome ∧ c.Raises
  compress_some : compression.isSome → enc.compress.isSome
  encrypt : ∀ e, enc.encrypt = some e → e.BuiltFor encryption

omit [Crates W] in
lemma BlockCompressor.Raises.hold {c : BlockCompressor W} (h : c.Raises) (buffer : Bytes) :
    (c.hold buffer).Raises := h

lemma AeadEncoder.BuiltFor.count {e : AeadEncoder W} (h : e.BuiltFor encryption) (input : Bytes) :
    (e.count input).BuiltFor encryption := h

lemma configured_of_build {enc : LayeredEncoder W}
    (henc : buildEncoder compression encryption = .ok enc) : Configured compression encryption enc := by
  obtain ⟨hc, he⟩ := buildEncoder_ok henc
  constructor
  · intro c hcompress
    rw [hc] at hcompress
    obtain ⟨cfg, rfl, rfl⟩ := Option.map_eq_some_iff.mp hcompress
    refine ⟨rfl, ?_⟩
    obtain ⟨algo, level⟩ := cfg
    intro block w
    cases algo <;> exact Except.raises_mapError (fun _ => ⟨_, rfl⟩) _
  · intro hsome
    rw [hc, Option.isSome_map]
    exact hsome
  · intro e hencrypt
    rw [hencrypt] at he
    cases he with
    | some he => exact ⟨_, e, rfl, he, rfl, rfl⟩

lemma LayeredEncoder.Step.configured {call : Call} {w w' : W} {enc enc' : LayeredEncoder W}
    {result : Except CodecError Unit} {fs : List Frame}
    (hstep : LayeredEncoder.Step call w enc result enc' fs w')
    (h : Configured compression encryption enc) : Configured compression encryption enc' := by
  obtain ⟨hc, hsome, he⟩ := h
  cases hstep <;> refine ⟨?_, hsome, ?_⟩ <;> rintro _ ⟨⟩ <;>
    first
      | exact ⟨(hc _ rfl).1, (hc _ rfl).2.hold _⟩
      | exact (he _ rfl).count _
      | exact he _ rfl

lemma configured_step (call : Call) (s : Session (LayeredEncoder W) W)
    (h : Configured compression encryption s.encoder) :
    Configured compression encryption ((sessions (LayeredEncoder W) W).step call s).2.encoder := by
  obtain ⟨enc, wire, w⟩ := s
  by_cases hl : LayeredEncoder.Layered enc
  · obtain ⟨result, enc', fs, w', hstep, hcall⟩ := LayeredEncoder.call_step hl call w
    rw [sessions_step (hcall wire)]
    exact hstep.configured h
  · obtain rfl : enc = ⟨none, none⟩ := not_not.mp hl
    cases call <;> exact h

lemma newNonce_error {w w' : W} {err : CodecError} (h : newNonce w = (.error err, w')) :
    err = .encrypt "nonce generation failed" := by
  have hresult := congrArg Prod.fst h
  unfold newNonce at hresult
  cases hdraw : (Crates.randomFill w).1 with
  | ok nonce =>
    simp only [hdraw, Except.mapError] at hresult
    cases hresult
  | error u =>
    simp only [hdraw, Except.mapError] at hresult
    exact (Except.error.inj hresult).symm

namespace AeadEncoder.BuiltFor

variable {e : AeadEncoder W} {nonce : Nonce} {aad p : Bytes} {w w' w₀ : W} {err : CodecError}

/-- Only AES-256-GCM can refuse to seal. -/
lemma sealing_error (h : e.BuiltFor encryption)
    (hseal : e.cipher.aeadSeal nonce aad p w = (.error err, w')) :
    ∃ cfg, encryption = some cfg ∧ cfg.cipher = .aes256Gcm ∧ err = .encrypt "aes-gcm seal failed" := by
  obtain ⟨cfg, e₀, hcfg, hbuild, hcipher, -⟩ := h
  obtain ⟨cipher, hbuilt, rfl⟩ := buildEncryptor_ok hbuild
  obtain ⟨rfl, -⟩ := buildAeadCipher_eq hbuilt
  refine ⟨cfg, hcfg, ?_⟩
  have hresult := congrArg Prod.fst hseal
  rw [hcipher] at hresult
  dsimp only at hresult
  unfold EncryptConfig.cipherOf at hresult
  cases hkind : cfg.cipher with
  | aes256Gcm =>
    rw [hkind] at hresult
    refine ⟨rfl, ?_⟩
    cases hring : (Crates.ringSeal cfg.key nonce aad p w).1 with
    | ok c =>
      simp only [ringAes256Gcm, hring, Except.mapError] at hresult
      cases hresult
    | error u =>
      simp only [ringAes256Gcm, hring, Except.mapError] at hresult
      exact (Except.error.inj hresult).symm
  | sm4Gcm =>
    rw [hkind] at hresult
    cases hresult

/-- The errors of an encode are those of the configuration, or about the length of the frame. -/
lemma encodeError (h : e.BuiltFor encryption) {input : Bytes} (herr : e.Fails input w err)
    (compression : Option CompressConfig) (call : Call)
    (hlarge : ∀ nonce sealed w', e.Seals w input nonce sealed w' →
      u32Limit ≤ (nonce.val ++ sealed).length → EncodeError compression encryption call w₀
        (.compress s!"block too large: {(nonce.val ++ sealed).length} bytes")) :
    EncodeError compression encryption call w₀ err := by
  cases herr with
  | tooLarge hsealed hlen => exact hlarge _ _ _ hsealed hlen
  | nonce hnonce =>
    rw [newNonce_error hnonce]
    obtain ⟨cfg, -, hcfg, -⟩ := h
    exact .nonce (by rw [hcfg]; rfl)
  | sealing hseal =>
    obtain ⟨cfg, hcfg, haes, rfl⟩ := h.sealing_error hseal
    exact .sealing hcfg haes

end AeadEncoder.BuiltFor

/-- Every call of a configured encoder. -/
lemma Configured.call_raises {enc : LayeredEncoder W} (h : Configured compression encryption enc)
    (call : Call) (output : Bytes) (w : W) :
    Except.Raises (EncodeError compression encryption call w) (Encoder.call enc output w call).1.result := by
  obtain ⟨compress, encrypt⟩ := enc
  obtain ⟨hc, hsome, he⟩ := h
  dsimp only at hc hsome he
  cases compress with
  | none =>
    have hnone : compression = none := by
      rw [← Option.not_isSome_iff_eq_none]
      intro h
      cases hsome h
    cases encrypt with
    | none => cases call <;> exact Except.raises_ok _ ()
    | some e =>
      rw [LayeredEncoder.call_encrypt_only]
      intro err herr
      apply (he e rfl).encodeError (e.encode_raises call.input output w err herr)
      intro nonce sealed w' hsealed hlarge
      obtain ⟨cfg, e₀, hcfg, hbuild, hcipher, hkind⟩ := he e rfl
      unfold AeadEncoder.Seals at hsealed
      rw [hcipher, hkind] at hsealed
      exact .tooLarge hnone hcfg hbuild hsealed hlarge
  | some c =>
    obtain ⟨hcompress, hraises⟩ := hc c rfl
    have hcall := BlockCompressor.call_raises hraises call
    cases encrypt with
    | none =>
      rw [LayeredEncoder.call_compress_only]
      intro err herr
      obtain ⟨m, rfl⟩ := hcall output w err herr
      exact .compress hcompress
    | some e =>
      rcases hmid : Encoder.call c [] w call with ⟨⟨result, c', mid⟩, w'⟩
      cases result with
      | error err =>
        rw [LayeredEncoder.call_both_of_error hmid]
        have herr := hcall [] w err (by rw [hmid])
        obtain ⟨m, rfl⟩ := herr
        exact Except.raises_error (.compress hcompress)
      | ok u =>
        rw [LayeredEncoder.call_both_of_ok hmid]
        intro err herr
        apply (he e rfl).encodeError (e.encode_raises mid output w' err herr)
        intro nonce sealed w'' _ _
        exact .compress hcompress

end Build

/-! ### Errors of decoders and builders -/

lemma takeBlock_raises (input : Bytes) : Except.Raises IsDecode (takeBlock input) := by
  unfold takeBlock
  split
  · split
    · exact Except.raises_error ⟨_, rfl⟩
    split
    · exact Except.raises_error ⟨_, rfl⟩
    split
    · rename_i e hkind
      apply Except.raises_error
      unfold FrameKind.fromU8 at hkind
      split_ifs at hkind
      cases hkind
      exact ⟨_, rfl⟩
    · dsimp only
      split
      · exact Except.raises_error ⟨_, rfl⟩
      · exact Except.raises_ok _ _
  · exact Except.raises_error ⟨_, rfl⟩

lemma decodeFrames_raises {handle : BlockHandler}
    (h : ∀ kind payload, Except.Raises IsDecode (handle kind payload)) (rest output : Bytes) :
    Except.Raises IsDecode (decodeFrames handle rest output).1 := by
  induction hlen : rest.length using Nat.strong_induction_on generalizing rest output with
  | _ n ih =>
    by_cases hempty : rest = []
    · subst hempty
      rw [decodeFrames_nil]
      exact Except.raises_ok _ _
    cases htake : takeBlock rest with
    | error e =>
      rw [decodeFrames_untaken hempty htake]
      exact Except.raises_error (takeBlock_raises rest e htake)
    | ok p =>
      obtain ⟨f, -, -, hrest⟩ := takeBlock_inv htake
      have hless := takeBlock_rest_lt htake
      rw [← hrest, decodeFrames_frame]
      cases hhandle : handle f.kind f.payload with
      | error e => exact Except.raises_error (h _ _ e hhandle)
      | ok data => exact ih _ (hlen ▸ hless) p.2.2 (output ++ data) rfl

lemma BlockDecompressor.handle_raises [Crates W] (cfg : CompressConfig) (kind : FrameKind)
    (payload : Bytes) : Except.Raises IsDecode ((buildDecompressor W cfg).handle kind payload) := by
  obtain ⟨algo, level⟩ := cfg
  unfold BlockDecompressor.handle
  split
  · exact Except.raises_error ⟨_, rfl⟩
  · cases algo <;> exact Except.raises_mapError (fun _ => ⟨_, rfl⟩) _

lemma AeadDecoder.handle_raises {a : AeadDecoder W}
    (h : ∀ nonce aad sealed, Except.Raises IsDecode (a.cipher.aeadOpen nonce aad sealed))
    (kind : FrameKind) (payload : Bytes) : Except.Raises IsDecode (a.handle kind payload) := by
  unfold AeadDecoder.handle
  split
  · exact Except.raises_error ⟨_, rfl⟩
  split
  · exact Except.raises_error ⟨_, rfl⟩
  split
  · rename_i e hnonce
    apply Except.raises_error
    unfold toNonce at hnonce
    split_ifs at hnonce
    cases hnonce
    exact ⟨_, rfl⟩
  · exact h _ _ _

lemma buildAeadCipher_open_raises [Crates W] {cfg : EncryptConfig} {cipher : AeadCipher W}
    (h : buildAeadCipher cfg = .ok cipher) (nonce : Nonce) (aad sealed : Bytes) :
    Except.Raises IsDecode (cipher.aeadOpen nonce aad sealed) := by
  unfold buildAeadCipher at h
  split at h
  · split at h
    · cases h
    split at h
    · cases h
    · cases h
      exact Except.raises_mapError (fun _ => ⟨_, rfl⟩) _
  · split at h
    · cases h
    · cases h
      exact Except.raises_mapError (fun _ => ⟨_, rfl⟩) _

lemma buildAeadCipher_raises [Crates W] (cfg : EncryptConfig) :
    Except.Raises IsConfig (buildAeadCipher (W := W) cfg) := by
  unfold buildAeadCipher
  split
  · split
    · exact Except.raises_error ⟨_, rfl⟩
    split
    · exact Except.raises_error ⟨_, rfl⟩
    · exact Except.raises_ok _ _
  · split
    · exact Except.raises_error ⟨_, rfl⟩
    · exact Except.raises_ok _ _

lemma validateLevel_raises (compression : Option CompressConfig) :
    Except.Raises IsConfig (validateLevel compression) := by
  cases compression with
  | none => exact Except.raises_ok _ _
  | some cfg =>
    obtain ⟨algo, level⟩ := cfg
    unfold validateLevel validateCompressLevel
    cases algo <;> dsimp only <;> split
    all_goals first | exact Except.raises_error ⟨_, rfl⟩ | exact Except.raises_ok _ _

/-- Encryptor and decryptor are built from one cipher, and both builders check one level. -/
lemma builders_agree [Crates W] (compression : Option CompressConfig)
    (encryption : Option EncryptConfig) :
    (buildEncoder (W := W) compression encryption).map (fun _ => ()) =
      (buildDecoder (W := W) compression encryption).map (fun _ => ()) := by
  unfold buildEncoder buildDecoder
  cases validateLevel compression with
  | error e => rfl
  | ok u =>
    cases encryption with
    | none => rfl
    | some cfg =>
      dsimp only [buildLayer, buildEncryptor, buildDecryptor]
      cases buildAeadCipher (W := W) cfg <;> rfl

lemma buildEncoder_raises [Crates W] (compression : Option CompressConfig)
    (encryption : Option EncryptConfig) :
    Except.Raises IsConfig (buildEncoder (W := W) compression encryption) := by
  have hlevel := validateLevel_raises compression
  unfold buildEncoder
  cases hvalid : validateLevel compression with
  | error e => exact Except.raises_error (hlevel e hvalid)
  | ok u =>
    cases encryption with
    | none => exact Except.raises_ok _ _
    | some cfg =>
      have hraises := buildAeadCipher_raises (W := W) cfg
      dsimp only [buildLayer, buildEncryptor]
      cases hcipher : buildAeadCipher (W := W) cfg with
      | error e => exact Except.raises_error (hraises e hcipher)
      | ok cipher => exact Except.raises_ok _ _

lemma build_decoder_raises [Crates W] {compression : Option CompressConfig}
    {encryption : Option EncryptConfig} {dec : LayeredDecoder W}
    (hdec : buildDecoder compression encryption = .ok dec) (input output : Bytes) :
    Except.Raises IsDecode (Decoder.decode dec input output).result := by
  obtain ⟨hp, ha⟩ := buildDecoder_ok hdec
  obtain ⟨decrypt, decompress⟩ := dec
  dsimp only at hp ha
  have hdecompress : ∀ p, decompress = some p → ∀ kind payload,
      Except.Raises IsDecode (p.handle kind payload) := by
    intro p hsome
    rw [hp] at hsome
    obtain ⟨cfg, -, rfl⟩ := Option.map_eq_some_iff.mp hsome
    exact BlockDecompressor.handle_raises cfg
  have hdecrypt : ∀ a, decrypt = some a → ∀ kind payload,
      Except.Raises IsDecode (a.handle kind payload) := by
    rintro a rfl
    cases ha with
    | @some cfg _ ha =>
      unfold buildDecryptor at ha
      split at ha
      · cases ha
      · rename_i cipher hcipher
        cases ha
        exact AeadDecoder.handle_raises (buildAeadCipher_open_raises hcipher)
  cases decrypt with
  | none =>
    cases decompress with
    | none => exact Except.raises_ok _ _
    | some p =>
      rw [decode_decompress]
      exact decodeFrames_raises (hdecompress p rfl) input output
  | some a =>
    have houter := decodeFrames_raises (hdecrypt a rfl) input []
    cases decompress with
    | none =>
      rw [decode_decrypt]
      exact decodeFrames_raises (hdecrypt a rfl) input output
    | some p =>
      rcases hmid : decodeFrames a.handle input [] with ⟨result, mid⟩
      rw [hmid] at houter
      cases result with
      | error e =>
        rw [decode_both_of_error a p hmid]
        exact Except.raises_error (houter e rfl)
      | ok u =>
        rw [decode_both_of_ok a p hmid]
        exact decodeFrames_raises (hdecompress p rfl) mid output

/-- The two builders refuse the same configurations with the same `Config` errors. In any run, every
call of an encoder raises only what `EncodeError` lists for its layers, and a decoder raises only
`Decode` errors. -/
theorem errors_by_role [Crates W] (compression : Option CompressConfig)
    (encryption : Option EncryptConfig) :
    (buildEncoder (W := W) compression encryption).map (fun _ => ()) =
      (buildDecoder (W := W) compression encryption).map (fun _ => ()) ∧
    Except.Raises IsConfig (buildEncoder (W := W) compression encryption) ∧
    (∀ enc, buildEncoder (W := W) compression encryption = .ok enc → ∀ calls prior w call,
      let M := sessions (LayeredEncoder W) W
      let s := M.run calls ⟨enc, prior, w⟩
      Except.Raises (EncodeError compression encryption call s.world) (M.step call s).1) ∧
    ∀ dec, buildDecoder (W := W) compression encryption = .ok dec → ∀ input output,
      Except.Raises IsDecode (Decoder.decode dec input output).result := by
  refine ⟨builders_agree compression encryption, buildEncoder_raises compression encryption, ?_,
    fun dec hdec => build_decoder_raises hdec⟩
  intro enc henc calls prior w call M s
  have hconfigured : Configured compression encryption s.encoder :=
    M.run_invariant configured_step calls (configured_of_build henc)
  exact hconfigured.call_raises call s.wire s.world

end WpConnectorUtils.Codec
