import WpConnectorUtils.Codec.DecodeLoop

/-!
# Authenticated encryption

`AeadEncoder` seals each non-empty input into one frame `nonce ++ ciphertext ++ tag`, with
the kind byte as associated data; `AeadDecoder` opens such frames. An encode that fails
leaves its counters and the output as they were.
-/

namespace WpConnectorUtils.Codec

def newNonce {W : Type} [Crates W] (w : W) : Except CodecError Nonce × W :=
  let (bytes, w) := Crates.randomFill w
  (bytes.mapError fun _ => .encrypt "nonce generation failed", w)

/-- `trait AeadCipher`; `seal` and `open` are words of Lean. -/
structure AeadCipher (W : Type) where
  aeadSeal : Nonce → Bytes → Bytes → W → Except CodecError Bytes × W
  aeadOpen : Nonce → Bytes → Bytes → Except CodecError Bytes

def ringAes256Gcm {W : Type} [Crates W] (key : Bytes) : AeadCipher W where
  aeadSeal nonce aad plaintext w :=
    let (sealed, w) := Crates.ringSeal key nonce aad plaintext w
    (sealed.mapError fun _ => .encrypt "aes-gcm seal failed", w)
  -- `try_assume_unique_for_key` accepts every nonce of this length
  aeadOpen nonce aad ciphertext :=
    (Crates.ringOpen W key nonce aad ciphertext).mapError fun _ =>
      .decode "open failed (tampered data?)"

def sm4GcmCipher {W : Type} [Crates W] (key : Bytes) : AeadCipher W where
  aeadSeal nonce aad plaintext w :=
    let (sealed, w) := Crates.sm4Encrypt key nonce aad plaintext w
    (.ok sealed, w)
  aeadOpen nonce aad ciphertext :=
    (Crates.sm4Decrypt W key nonce aad ciphertext).mapError fun e =>
      .decode s!"sm4-gcm open failed: {e}"

structure AeadEncoder (W : Type) where
  cipher : AeadCipher W
  kind : FrameKind
  noncesIssued : Nat
  sealedBytes : Nat

structure AeadDecoder (W : Type) where
  cipher : AeadCipher W
  kind : FrameKind

namespace AeadEncoder

variable {W : Type}

/-- The counters after an input was sealed and framed. -/
def count (self : AeadEncoder W) (input : Bytes) : AeadEncoder W :=
  { self with
    noncesIssued := self.noncesIssued + 1
    sealedBytes := self.sealedBytes + input.length }

variable [Crates W]

def encode (self : AeadEncoder W) (input output : Bytes) (w : W) : Outcome (AeadEncoder W) × W :=
  if input.isEmpty then (⟨.ok (), self, output⟩, w)
  else
    match newNonce w with
    | (.error e, w) => (⟨.error e, self, output⟩, w)
    | (.ok nonce, w) =>
      let aad := [self.kind.toU8]
      match self.cipher.aeadSeal nonce aad input w with
      | (.error e, w) => (⟨.error e, self, output⟩, w)
      | (.ok sealed, w) =>
        let payload := nonce.val ++ sealed
        match putBlock output self.kind payload with
        | (.error e, output) => (⟨.error e, self, output⟩, w)
        | (.ok (), output) => (⟨.ok (), self.count input, output⟩, w)

def finish (self : AeadEncoder W) (output : Bytes) (w : W) : Outcome (AeadEncoder W) × W :=
  (⟨.ok (), self, output⟩, w)

def stats (self : AeadEncoder W) : CodecStats where
  noncesIssued := self.noncesIssued
  sealedBytes := self.sealedBytes

instance : Encoder (AeadEncoder W) W where
  encode := encode
  finish := finish
  stats := stats

end AeadEncoder

def toNonce (bytes : Bytes) : Except CodecError Nonce :=
  if h : bytes.length = nonceLen then .ok ⟨bytes, h⟩ else .error (.decode "bad nonce length")

namespace AeadDecoder

variable {W : Type}

def handle (self : AeadDecoder W) : BlockHandler := fun kind payload =>
  if kind ≠ self.kind then .error (unexpectedKind kind self.kind)
  else if payload.length < nonceLen then .error (.decode "ciphertext block too short")
  else
    match toNonce (payload.take nonceLen) with
    | .error e => .error e
    | .ok nonce =>
      let aad := [kind.toU8]
      self.cipher.aeadOpen nonce aad (payload.drop nonceLen)

def decode (self : AeadDecoder W) (input output : Bytes) : Outcome (AeadDecoder W) :=
  let (result, output) := decodeFrames self.handle input output
  ⟨result, self, output⟩

def finish (self : AeadDecoder W) (output : Bytes) : Outcome (AeadDecoder W) :=
  ⟨.ok (), self, output⟩

instance : Decoder (AeadDecoder W) where
  decode := decode
  finish := finish

/-- A frame opens to `d` when it splits into a nonce and a ciphertext that opens to `d`. -/
theorem opens_iff (self : AeadDecoder W) (f : Frame) (d : Bytes) :
    Opens self.handle f d ↔ f.kind = self.kind ∧ ∃ (nonce : Nonce) (sealed : Bytes),
      f.payload = nonce.val ++ sealed ∧ self.cipher.aeadOpen nonce [self.kind.toU8] sealed = .ok d := by
  unfold Opens handle
  by_cases hkind : f.kind = self.kind
  swap
  · simp [hkind]
  rw [if_neg (by simpa using hkind)]
  by_cases hshort : f.payload.length < nonceLen
  · rw [if_pos hshort]
    constructor
    · intro h
      cases h
    · rintro ⟨-, nonce, sealed, hp, -⟩
      rw [hp, List.length_append, nonce.property] at hshort
      omega
  have htake : (f.payload.take nonceLen).length = nonceLen := by
    rw [List.length_take]
    omega
  rw [if_neg hshort]
  unfold toNonce
  rw [dif_pos htake]
  dsimp only
  constructor
  · intro h
    refine ⟨hkind, ⟨f.payload.take nonceLen, htake⟩, f.payload.drop nonceLen, by simp, ?_⟩
    rw [← hkind]
    exact h
  · rintro ⟨-, nonce, sealed, hp, hopen⟩
    have hnonce : f.payload.take nonceLen = nonce.val := by
      rw [hp, List.take_left' nonce.property]
    have hsealed : f.payload.drop nonceLen = sealed := by
      rw [hp, List.drop_left' nonce.property]
    have hsub : (⟨f.payload.take nonceLen, htake⟩ : Nonce) = nonce := Subtype.ext hnonce
    rw [hsub, hsealed, hkind]
    exact hopen

end AeadDecoder

/-! ### What an encode does -/

namespace AeadEncoder

variable {W : Type} [Crates W]

/-- In world `w` the input is sealed under `nonce` into `sealed`, which leaves world `w'`. -/
def Seals (e : AeadEncoder W) (w : W) (input : Bytes) (nonce : Nonce) (sealed : Bytes) (w' : W) :
    Prop :=
  ∃ w₁, newNonce w = (.ok nonce, w₁) ∧
    e.cipher.aeadSeal nonce [e.kind.toU8] input w₁ = (.ok sealed, w')

/-- In world `w` the input is sealed and fits into frame `f`. -/
def Packs (e : AeadEncoder W) (w : W) (input : Bytes) (f : Frame) (w' : W) : Prop :=
  f.kind = e.kind ∧ ∃ nonce sealed, e.Seals w input nonce sealed w' ∧ f.payload = nonce.val ++ sealed

/-- In world `w` the nonce, the seal or the frame fails for the input. -/
def Rejects (e : AeadEncoder W) (w : W) (input : Bytes) : Prop := ∀ f w', ¬e.Packs w input f w'

@[simp] lemma encode_nil (e : AeadEncoder W) (output : Bytes) (w : W) :
    e.encode [] output w = (⟨.ok (), e, output⟩, w) := rfl

theorem encode_of_packs {e : AeadEncoder W} {w w' : W} {input : Bytes} {f : Frame}
    (hne : input ≠ []) (h : e.Packs w input f w') (output : Bytes) :
    e.encode input output w = (⟨.ok (), e.count input, output ++ f.bytes⟩, w') := by
  obtain ⟨hkind, nonce, sealed, ⟨w₁, hnonce, hseal⟩, hpayload⟩ := h
  unfold encode
  rw [if_neg (by simpa using hne), hnonce]
  dsimp only
  rw [hseal]
  dsimp only
  rw [← hpayload, ← hkind, putBlock_of_fits]

theorem encode_of_rejects {e : AeadEncoder W} {w : W} {input : Bytes} (hne : input ≠ [])
    (h : e.Rejects w input) :
    ∃ err w', ∀ output, e.encode input output w = (⟨.error err, e, output⟩, w') := by
  have hempty : input.isEmpty = false := by simpa using hne
  simp only [encode, hempty, Bool.false_eq_true, if_false]
  rcases hn : newNonce w with ⟨drawn, w₁⟩
  cases drawn with
  | error err => exact ⟨err, w₁, fun _ => rfl⟩
  | ok nonce =>
    dsimp only
    rcases hs : e.cipher.aeadSeal nonce [e.kind.toU8] input w₁ with ⟨sealed, w'⟩
    cases sealed with
    | error err => exact ⟨err, w', fun _ => rfl⟩
    | ok sealed =>
      by_cases hfits : (nonce.val ++ sealed).length < u32Limit
      · exact absurd ⟨rfl, nonce, sealed, ⟨w₁, hn, hs⟩, rfl⟩ (h ⟨e.kind, _, hfits⟩ w')
      · refine ⟨.compress s!"block too large: {(nonce.val ++ sealed).length} bytes", w', ?_⟩
        intro output
        dsimp only
        unfold putBlock
        rw [if_neg hfits]

end AeadEncoder

end WpConnectorUtils.Codec
