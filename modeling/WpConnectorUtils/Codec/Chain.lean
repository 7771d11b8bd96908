import WpConnectorUtils.Codec.Compress
import WpConnectorUtils.Codec.Aead

/-!
# Layered codecs

`ChainEncoder` compresses and then encrypts, `ChainDecoder` decrypts and then decompresses;
either layer may be absent. `build_encoder` and `build_decoder` are the only ways to make them.
-/

namespace WpConnectorUtils.Codec

structure ChainEncoder (C E : Type) where
  compress : Option C
  encrypt : Option E

structure ChainDecoder (D P : Type) where
  decrypt : Option D
  decompress : Option P

namespace ChainEncoder

variable {C E W : Type} [Encoder C W] [Encoder E W]

def encode (self : ChainEncoder C E) (input output : Bytes) (w : W) :
    Outcome (ChainEncoder C E) × W :=
  match self.compress, self.encrypt with
  | some c, some e =>
    match Encoder.encode c input [] w with
    | (⟨.error err, c, _⟩, w) => (⟨.error err, ⟨some c, some e⟩, output⟩, w)
    | (⟨.ok (), c, mid⟩, w) =>
      if ¬mid.isEmpty then
        let (o, w) := Encoder.encode e mid output w
        (⟨o.result, ⟨some c, some o.self⟩, o.output⟩, w)
      else (⟨.ok (), ⟨some c, some e⟩, output⟩, w)
  | some c, none =>
    let (o, w) := Encoder.encode c input output w
    (⟨o.result, ⟨some o.self, none⟩, o.output⟩, w)
  | none, some e =>
    let (o, w) := Encoder.encode e input output w
    (⟨o.result, ⟨none, some o.self⟩, o.output⟩, w)
  | none, none => (⟨.ok (), ⟨none, none⟩, output ++ input⟩, w)

def finish (self : ChainEncoder C E) (output : Bytes) (w : W) : Outcome (ChainEncoder C E) × W :=
  match self.compress, self.encrypt with
  | some c, some e =>
    match Encoder.finish c [] w with
    | (⟨.error err, c, _⟩, w) => (⟨.error err, ⟨some c, some e⟩, output⟩, w)
    | (⟨.ok (), c, mid⟩, w) =>
      if ¬mid.isEmpty then
        match Encoder.encode e mid output w with
        | (⟨.error err, e, output⟩, w) => (⟨.error err, ⟨some c, some e⟩, output⟩, w)
        | (⟨.ok (), e, output⟩, w) =>
          let (o, w) := Encoder.finish e output w
          (⟨o.result, ⟨some c, some o.self⟩, o.output⟩, w)
      else
        let (o, w) := Encoder.finish e output w
        (⟨o.result, ⟨some c, some o.self⟩, o.output⟩, w)
  | some c, none =>
    let (o, w) := Encoder.finish c output w
    (⟨o.result, ⟨some o.self, none⟩, o.output⟩, w)
  | none, some e =>
    let (o, w) := Encoder.finish e output w
    (⟨o.result, ⟨none, some o.self⟩, o.output⟩, w)
  | none, none => (⟨.ok (), ⟨none, none⟩, output⟩, w)

def stats (self : ChainEncoder C E) : CodecStats :=
  match self.encrypt with
  | some e => Encoder.stats e
  | none => {}

instance : Encoder (ChainEncoder C E) W where
  encode := encode
  finish := finish
  stats := stats

end ChainEncoder

namespace ChainDecoder

variable {D P : Type} [Decoder D] [Decoder P]

def decode (self : ChainDecoder D P) (input output : Bytes) : Outcome (ChainDecoder D P) :=
  match self.decrypt, self.decompress with
  | some d, some c =>
    match Decoder.decode d input [] with
    | ⟨.error err, d, _⟩ => ⟨.error err, ⟨some d, some c⟩, output⟩
    | ⟨.ok (), d, mid⟩ =>
      let o := Decoder.decode c mid output
      ⟨o.result, ⟨some d, some o.self⟩, o.output⟩
  | some d, none =>
    let o := Decoder.decode d input output
    ⟨o.result, ⟨some o.self, none⟩, o.output⟩
  | none, some c =>
    let o := Decoder.decode c input output
    ⟨o.result, ⟨none, some o.self⟩, o.output⟩
  | none, none => ⟨.ok (), ⟨none, none⟩, output ++ input⟩

def finish (self : ChainDecoder D P) (output : Bytes) : Outcome (ChainDecoder D P) :=
  match self.decrypt, self.decompress with
  | some d, some c =>
    match Decoder.finish d [] with
    | ⟨.error err, d, _⟩ => ⟨.error err, ⟨some d, some c⟩, output⟩
    | ⟨.ok (), d, mid⟩ =>
      if ¬mid.isEmpty then
        match Decoder.decode c mid output with
        | ⟨.error err, c, output⟩ => ⟨.error err, ⟨some d, some c⟩, output⟩
        | ⟨.ok (), c, output⟩ =>
          let o := Decoder.finish c output
          ⟨o.result, ⟨some d, some o.self⟩, o.output⟩
      else
        let o := Decoder.finish c output
        ⟨o.result, ⟨some d, some o.self⟩, o.output⟩
  | some d, none =>
    let o := Decoder.finish d output
    ⟨o.result, ⟨some o.self, none⟩, o.output⟩
  | none, some c =>
    let o := Decoder.finish c output
    ⟨o.result, ⟨none, some o.self⟩, o.output⟩
  | none, none => ⟨.ok (), ⟨none, none⟩, output⟩

instance : Decoder (ChainDecoder D P) where
  decode := decode
  finish := finish

end ChainDecoder

/-! ### Building -/

variable {W : Type} [Crates W]

def validateCompressLevel (cfg : CompressConfig) : Except CodecError Unit :=
  let (lo, hi, name) : Int × Int × String := match cfg.algo with
    | .gzip => (0, 9, "gzip")
    | .zstd => (-7, 22, "zstd")
  if ¬(lo ≤ cfg.level ∧ cfg.level ≤ hi) then
    .error (.config s!"{name} level must be {lo}..={hi}, got {cfg.level}")
  else .ok ()

def buildCompressor (cfg : CompressConfig) : BlockCompressor W :=
  let (compress, kind) : CompressFn W × FrameKind := match cfg.algo with
    | .gzip => (gzipCompress, .gzip)
    | .zstd => (zstdCompress, .zstd)
  { buffer := [], level := cfg.level, kind := kind, compress := compress }

def buildDecompressor (W : Type) [Crates W] (cfg : CompressConfig) : BlockDecompressor :=
  let (decompress, kind) : DecompressFn × FrameKind := match cfg.algo with
    | .gzip => (gzipDecompress W, .gzip)
    | .zstd => (zstdDecompress W, .zstd)
  { kind := kind, decompress := decompress }

def buildAeadCipher (cfg : EncryptConfig) : Except CodecError (AeadCipher W) :=
  match cfg.cipher with
  | .aes256Gcm =>
    if cfg.key.length ≠ 32 then
      .error (.config s!"aes-256-gcm key must be 32 bytes, got {cfg.key.length}")
    else
      match Crates.unboundKey W cfg.key with
      | .error () => .error (.config "invalid aes-256-gcm key")
      | .ok () => .ok (ringAes256Gcm cfg.key)
  | .sm4Gcm =>
    if cfg.key.length ≠ 16 then
      .error (.config s!"sm4-gcm key must be 16 bytes, got {cfg.key.length}")
    else .ok (sm4GcmCipher cfg.key)

def cipherFrameKind : Cipher → FrameKind
  | .aes256Gcm => .aes256Gcm
  | .sm4Gcm => .sm4Gcm

def buildEncryptor (cfg : EncryptConfig) : Except CodecError (AeadEncoder W) :=
  match buildAeadCipher cfg with
  | .error e => .error e
  | .ok cipher =>
    .ok { cipher := cipher, kind := cipherFrameKind cfg.cipher, noncesIssued := 0, sealedBytes := 0 }

def buildDecryptor (cfg : EncryptConfig) : Except CodecError (AeadDecoder W) :=
  match buildAeadCipher cfg with
  | .error e => .error e
  | .ok cipher => .ok { cipher := cipher, kind := cipherFrameKind cfg.cipher }

/-- `cfg.map(build).transpose()` -/
def buildLayer {α β : Type} (build : α → Except CodecError β) : Option α → Except CodecError (Option β)
  | none => .ok none
  | some cfg =>
    match build cfg with
    | .error e => .error e
    | .ok layer => .ok (some layer)

def validateLevel : Option CompressConfig → Except CodecError Unit
  | none => .ok ()
  | some c => validateCompressLevel c

abbrev LayeredEncoder (W : Type) := ChainEncoder (BlockCompressor W) (AeadEncoder W)

abbrev LayeredDecoder (W : Type) := ChainDecoder (AeadDecoder W) BlockDecompressor

def buildEncoder (compression : Option CompressConfig) (encryption : Option EncryptConfig) :
    Except CodecError (LayeredEncoder W) :=
  match validateLevel compression with
  | .error e => .error e
  | .ok () =>
    match buildLayer buildEncryptor encryption with
    | .error e => .error e
    | .ok encrypt => .ok { compress := compression.map buildCompressor, encrypt := encrypt }

def buildDecoder (compression : Option CompressConfig) (encryption : Option EncryptConfig) :
    Except CodecError (LayeredDecoder W) :=
  match validateLevel compression with
  | .error e => .error e
  | .ok () =>
    match buildLayer buildDecryptor encryption with
    | .error e => .error e
    | .ok decrypt => .ok { decrypt := decrypt, decompress := compression.map (buildDecompressor W) }

lemma buildLayer_ok {α β : Type} {build : α → Except CodecError β} {cfg : Option α} {layer : Option β}
    (h : buildLayer build cfg = .ok layer) : Option.Rel (fun c l => build c = .ok l) cfg layer := by
  unfold buildLayer at h
  cases cfg with
  | none =>
    cases h
    exact .none
  | some c =>
    dsimp only at h
    split at h
    · cases h
    · cases h
      exact .some (by assumption)

lemma buildEncoder_ok {compression : Option CompressConfig} {encryption : Option EncryptConfig}
    {enc : LayeredEncoder W} (h : buildEncoder compression encryption = .ok enc) :
    enc.compress = compression.map buildCompressor ∧
      Option.Rel (fun cfg e => buildEncryptor cfg = .ok e) encryption enc.encrypt := by
  unfold buildEncoder at h
  split at h
  · cases h
  split at h
  · cases h
  · cases h
    exact ⟨rfl, buildLayer_ok (by assumption)⟩

lemma buildDecoder_ok {compression : Option CompressConfig} {encryption : Option EncryptConfig}
    {dec : LayeredDecoder W} (h : buildDecoder compression encryption = .ok dec) :
    dec.decompress = compression.map (buildDecompressor W) ∧
      Option.Rel (fun cfg a => buildDecryptor cfg = .ok a) encryption dec.decrypt := by
  unfold buildDecoder at h
  split at h
  · cases h
  split at h
  · cases h
  · cases h
    exact ⟨rfl, buildLayer_ok (by assumption)⟩

def Cipher.keyLen : Cipher → Nat
  | .aes256Gcm => 32
  | .sm4Gcm => 16

/-- The cipher of a configuration. -/
def EncryptConfig.cipherOf (cfg : EncryptConfig) : AeadCipher W :=
  match cfg.cipher with
  | .aes256Gcm => ringAes256Gcm cfg.key
  | .sm4Gcm => sm4GcmCipher cfg.key

lemma buildAeadCipher_eq {cfg : EncryptConfig} {cipher : AeadCipher W} (h : buildAeadCipher cfg = .ok cipher) :
    cipher = cfg.cipherOf ∧ cfg.key.length = cfg.cipher.keyLen := by
  unfold buildAeadCipher at h
  unfold EncryptConfig.cipherOf
  cases hkind : cfg.cipher with
  | aes256Gcm =>
    rw [hkind] at h
    dsimp only at h
    split at h
    · cases h
    rename_i hlen
    split at h
    · cases h
    · exact ⟨(Except.ok.inj h).symm, not_not.mp hlen⟩
  | sm4Gcm =>
    rw [hkind] at h
    dsimp only at h
    split at h
    · cases h
    · rename_i hlen
      exact ⟨(Except.ok.inj h).symm, not_not.mp hlen⟩

lemma buildEncryptor_ok {cfg : EncryptConfig} {e : AeadEncoder W} (h : buildEncryptor cfg = .ok e) :
    ∃ cipher, buildAeadCipher cfg = .ok cipher ∧ e = ⟨cipher, cipherFrameKind cfg.cipher, 0, 0⟩ := by
  unfold buildEncryptor at h
  split at h
  · cases h
  · rename_i cipher hcipher
    cases h
    exact ⟨cipher, hcipher, rfl⟩

def sampleEncoder : LayeredEncoder SampleWorld :=
  ⟨some (buildCompressor {}), some ⟨ringAes256Gcm SampleWorld.key, .aes256Gcm, 0, 0⟩⟩

def sampleDecoder : LayeredDecoder SampleWorld :=
  ⟨some ⟨ringAes256Gcm SampleWorld.key, .aes256Gcm⟩, some (buildDecompressor SampleWorld {})⟩

end WpConnectorUtils.Codec
