import Mathlib.Tactic
import Mathlib.Data.List.Basic

/-!
# Codec interface

Errors, configuration, statistics and the two traits of `codec.rs`. Rust keeps the changes
made to `self` and `output` when a call returns `Err`, so every call answers with an
`Outcome` holding all three. Compressors, ciphers and the nonce source belong to other
crates: `Crates W` supplies them, and the ones an encoder calls may read and change an
arbitrary world `W`, so each call may succeed or fail independently of the last one.
-/

namespace WpConnectorUtils.Codec

abbrev Bytes := List UInt8

inductive CodecError
  | config (message : String)
  | compress (message : String)
  | encrypt (message : String)
  | decode (message : String)
  deriving DecidableEq, Repr

inductive CompressionAlgo
  | gzip
  | zstd
  deriving DecidableEq, Repr

structure CompressConfig where
  algo : CompressionAlgo := .zstd
  level : Int := 3
  deriving DecidableEq, Repr

inductive Cipher
  | aes256Gcm
  | sm4Gcm
  deriving DecidableEq, Repr

structure EncryptConfig where
  cipher : Cipher
  key : Bytes
  deriving DecidableEq, Repr

/-- Both counters are `u64` in the source; they are taken as not having wrapped. -/
structure CodecStats where
  noncesIssued : Nat := 0
  sealedBytes : Nat := 0
  deriving DecidableEq, Repr

/-- What a call returns and what it leaves in `self` and `output`. -/
structure Outcome (σ : Type) where
  result : Except CodecError Unit
  self : σ
  output : Bytes

class Encoder (σ : Type) (W : outParam Type) where
  encode : σ → Bytes → Bytes → W → Outcome σ × W
  finish : σ → Bytes → W → Outcome σ × W
  stats : σ → CodecStats := fun _ => {}

class Decoder (σ : Type) where
  decode : σ → Bytes → Bytes → Outcome σ
  finish : σ → Bytes → Outcome σ

/-! ### Other crates -/

def nonceLen : Nat := 12

/-- `[u8; NONCE_LEN]` -/
abbrev Nonce := {bytes : Bytes // bytes.length = nonceLen}

/-- The functions of `flate2`, `zstd`, `ring` and `sm4-gcm` that the codec calls. Keys,
nonces, associated data and texts are passed in this order. -/
class Crates (W : Type) where
  gzEncode : Bytes → Nat → W → Except String Bytes × W -- `GzEncoder::write_all`, `finish`
  gzDecode : Bytes → Except String Bytes -- `GzDecoder::read_to_end`
  zstdCompress : Bytes → Int → W → Except String Bytes × W -- `zstd::bulk::compress`
  zstdDecodeAll : Bytes → Except String Bytes -- `zstd::stream::decode_all`
  randomFill : W → Except Unit Nonce × W -- `SystemRandom::fill`
  unboundKey : Bytes → Except Unit Unit -- `UnboundKey::new(&AES_256_GCM, key)`
  ringSeal : Bytes → Nonce → Bytes → Bytes → W → Except Unit Bytes × W -- `seal_in_place_append_tag`
  ringOpen : Bytes → Nonce → Bytes → Bytes → Except Unit Bytes -- `open_in_place`
  sm4Encrypt : Bytes → Nonce → Bytes → Bytes → W → Bytes × W -- `sm4_gcm_aad_encrypt`
  sm4Decrypt : Bytes → Nonce → Bytes → Bytes → Except String Bytes -- `sm4_gcm_aad_decrypt`

/-- Opening inverts every successful seal. -/
structure Crates.OpenInverts (W : Type) [Crates W] : Prop where
  ring : ∀ key nonce aad p (w w' : W) c, ringSeal key nonce aad p w = (.ok c, w') →
    ringOpen W key nonce aad c = .ok p
  sm4 : ∀ key nonce aad p (w w' : W) c, sm4Encrypt key nonce aad p w = (c, w') →
    sm4Decrypt W key nonce aad c = .ok p

/-- So does decompression for every successful compression. -/
structure Crates.RoundTrip (W : Type) [Crates W] : Prop extends Crates.OpenInverts W where
  gz : ∀ b level (w w' : W) c, gzEncode b level w = (.ok c, w') → gzDecode W c = .ok b
  zstd : ∀ b level (w w' : W) c, zstdCompress b level w = (.ok c, w') → zstdDecodeAll W c = .ok b

/-! ### A sample of the crates

Their answers on one text, one key and one nonce; any other request is refused. -/

structure SampleWorld where
  randomReady : Bool -- whether the next draw succeeds
  deriving DecidableEq, Repr

namespace SampleWorld

def text : Bytes := [0x68, 0x69]

def gzipText : Bytes :=
  [0x1f, 0x8b, 0x08, 0x00, 0x00, 0x00, 0x00, 0x00, 0x00, 0xff, 0xcb, 0xc8, 0x04, 0x00, 0xac, 0x2a,
    0x93, 0xd8, 0x02, 0x00, 0x00, 0x00]

def zstdText : Bytes := [0x28, 0xb5, 0x2f, 0xfd, 0x20, 0x02, 0x11, 0x00, 0x00, 0x68, 0x69]

/-- The frame of `zstdText`. -/
def framedText : Bytes := [0x57, 0x50, 0x01, 0x02, 0x00, 0x00, 0x00, 0x0b] ++ zstdText

def key : Bytes := (List.range 32).map UInt8.ofNat

def nonce : Nonce := ⟨(List.range 12).map UInt8.ofNat, by decide⟩

def sealedText : Bytes :=
  [0x2f, 0x6b, 0xbe, 0xb7, 0x68, 0x1d, 0xe7, 0xdd, 0xe5, 0xa5, 0x27, 0xdd, 0x8c, 0xe5, 0x90, 0x62,
    0xb4, 0x73]

def sealedFrame : Bytes :=
  [0x10, 0x52, 0xd7, 0x19, 0xc5, 0xe5, 0xc2, 0x10, 0xa5, 0xf4, 0xb8, 0x76, 0x91, 0xeb, 0x69, 0x6d,
    0x83, 0xbe, 0xee, 0x43, 0x77, 0xee, 0x1b, 0x45, 0x40, 0x5f, 0x28, 0xf2, 0xcc, 0x33, 0x4f, 0x54,
    0xd9, 0x3c, 0xf6]

def ask (request known answer : Bytes) : Except String Bytes :=
  if request = known then .ok answer else .error "unsupported"

def ringAsk (keyed : Bytes × Nonce × Bytes) (request text frame textAnswer frameAnswer : Bytes) :
    Except Unit Bytes :=
  if keyed = (key, nonce, [0x03]) ∧ request = text then .ok textAnswer
  else if keyed = (key, nonce, [0x03]) ∧ request = frame then .ok frameAnswer
  else .error ()

instance : Crates SampleWorld where
  gzEncode data _ w := (ask data text gzipText, w)
  gzDecode data := ask data gzipText text
  zstdCompress data _ w := (ask data text zstdText, w)
  zstdDecodeAll data := ask data zstdText text
  randomFill w := (if w.randomReady then .ok nonce else .error (), ⟨true⟩)
  unboundKey _ := .ok ()
  ringSeal k n aad p w := (ringAsk (k, n, aad) p text framedText sealedText sealedFrame, w)
  ringOpen k n aad c := ringAsk (k, n, aad) c sealedText sealedFrame text framedText
  sm4Encrypt _ _ _ p w := (p ++ List.replicate 16 0, w)
  sm4Decrypt _ _ _ c := .ok (c.take (c.length - 16))

lemma ask_inverse {request known answer c : Bytes} (h : ask request known answer = .ok c) :
    ask c answer known = .ok request := by
  unfold ask at h ⊢
  split at h
  · cases h
    simp_all
  · cases h

lemma roundTrip : Crates.RoundTrip SampleWorld where
  gz _ _ _ _ _ h := ask_inverse (congrArg Prod.fst h)
  zstd _ _ _ _ _ h := ask_inverse (congrArg Prod.fst h)
  ring k n aad p w w' c h := by
    have hc := congrArg Prod.fst h
    simp only [Crates.ringSeal, Crates.ringOpen, ringAsk] at hc ⊢
    split at hc
    · rename_i hkey
      cases hc
      rw [if_pos ⟨hkey.1, rfl⟩, hkey.2]
    split at hc
    · rename_i hkey
      cases hc
      rw [if_neg (by simp [sealedFrame, sealedText]), if_pos ⟨hkey.1, rfl⟩, hkey.2]
    · cases hc
  sm4 k n aad p w w' c h := by
    have hc : p ++ List.replicate 16 0 = c := congrArg Prod.fst h
    rw [← hc]
    simp [Crates.sm4Decrypt]

end SampleWorld

end WpConnectorUtils.Codec
