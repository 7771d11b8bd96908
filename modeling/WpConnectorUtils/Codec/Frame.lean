import WpConnectorUtils.Library.BigEndian
import WpConnectorUtils.Library.PrefixCode
import WpConnectorUtils.Codec.Basic

/-!
# Block frames

`put_block` and `take_block`: magic (2) | version (1) | kind (1) | length (4, big-endian) |
payload. A `Frame` is a block that fits its length field; frames form a prefix code whose
reader is `take_block`.
-/

namespace WpConnectorUtils.Codec
open ByteFormat

def frameMagic : UInt8 × UInt8 := (0x57, 0x50)

def frameVersion : UInt8 := 1

/-- One more than `u32::MAX`. -/
def u32Limit : Nat := 2 ^ 32

lemma pow_four_eq : 256 ^ 4 = u32Limit := by norm_num [u32Limit]

inductive FrameKind
  | gzip
  | zstd
  | aes256Gcm
  | sm4Gcm
  deriving DecidableEq, Repr

namespace FrameKind

def toU8 : FrameKind → UInt8
  | gzip => 0x01
  | zstd => 0x02
  | aes256Gcm => 0x03
  | sm4Gcm => 0x04

def debug : FrameKind → String
  | gzip => "Gzip"
  | zstd => "Zstd"
  | aes256Gcm => "Aes256Gcm"
  | sm4Gcm => "Sm4Gcm"

/-- `{v:02x}` -/
def hexByte (v : UInt8) : String :=
  String.ofList [Nat.digitChar (v.toNat / 16), Nat.digitChar (v.toNat % 16)]

def fromU8 (v : UInt8) : Except CodecError FrameKind :=
  if v = 0x01 then .ok gzip
  else if v = 0x02 then .ok zstd
  else if v = 0x03 then .ok aes256Gcm
  else if v = 0x04 then .ok sm4Gcm
  else .error (.decode s!"unknown frame kind 0x{hexByte v}")

@[simp] lemma fromU8_toU8 (k : FrameKind) : fromU8 k.toU8 = .ok k := by
  cases k <;> rfl

lemma toU8_of_fromU8 {v : UInt8} {k : FrameKind} (h : fromU8 v = .ok k) : v = k.toU8 := by
  unfold fromU8 at h
  split at h
  · cases h; assumption
  split at h
  · cases h; assumption
  split at h
  · cases h; assumption
  split at h
  · cases h; assumption
  · cases h

end FrameKind

def putBlock (out : Bytes) (kind : FrameKind) (payload : Bytes) : Except CodecError Unit × Bytes :=
  if payload.length < u32Limit then
    (.ok (), out ++ [frameMagic.1, frameMagic.2] ++ [frameVersion] ++ [kind.toU8] ++
      beBytes 4 payload.length ++ payload)
  else (.error (.compress s!"block too large: {payload.length} bytes"), out)

/-- The frame at the front of `input` and the bytes after it. -/
def takeBlock : Bytes → Except CodecError (FrameKind × Bytes × Bytes)
  | m0 :: m1 :: version :: v :: l0 :: l1 :: l2 :: l3 :: input =>
    if m0 ≠ frameMagic.1 ∨ m1 ≠ frameMagic.2 then .error (.decode "bad frame magic")
    else if version ≠ frameVersion then .error (.decode "unsupported frame version")
    else match FrameKind.fromU8 v with
      | .error e => .error e
      | .ok kind =>
        let len := beNat [l0, l1, l2, l3]
        if input.length < len then
          .error (.decode s!"truncated block payload: need {len}, have {input.length}")
        else .ok (kind, input.take len, input.drop len)
  | _ => .error (.decode "truncated block header")

/-! ### Frames -/

/-- A block whose payload fits the length field. -/
structure Frame where
  kind : FrameKind
  payload : Bytes
  fits : payload.length < u32Limit
  deriving DecidableEq

namespace Frame

/-- `57 50 01 kind`, the length, the payload. -/
def bytes (f : Frame) : Bytes :=
  [frameMagic.1, frameMagic.2, frameVersion, f.kind.toU8] ++ beBytes 4 f.payload.length ++ f.payload

@[simp] lemma length_bytes (f : Frame) : f.bytes.length = 8 + f.payload.length := by
  simp only [bytes, List.length_append, length_beBytes, List.length_cons, List.length_nil]

lemma bytes_append {f : Frame} {l0 l1 l2 l3 : UInt8}
    (h : beBytes 4 f.payload.length = [l0, l1, l2, l3]) (rest : Bytes) :
    f.bytes ++ rest = frameMagic.1 :: frameMagic.2 :: frameVersion :: f.kind.toU8 ::
      l0 :: l1 :: l2 :: l3 :: (f.payload ++ rest) := by
  rw [bytes, h]
  simp

lemma bytes_ne_nil (f : Frame) : f.bytes ≠ [] := by
  simp [bytes]

@[ext] lemma ext' {f g : Frame} (hk : f.kind = g.kind) (hp : f.payload = g.payload) : f = g := by
  cases f
  cases g
  simp_all

end Frame

lemma putBlock_of_fits (out : Bytes) (f : Frame) :
    putBlock out f.kind f.payload = (.ok (), out ++ f.bytes) := by
  unfold putBlock
  rw [if_pos f.fits]
  simp [Frame.bytes, List.append_assoc]

lemma putBlock_too_large (out : Bytes) (kind : FrameKind) {payload : Bytes}
    (h : ¬payload.length < u32Limit) : ∃ e, putBlock out kind payload = (.error e, out) := by
  unfold putBlock
  rw [if_neg h]
  exact ⟨_, rfl⟩

lemma exists_beBytes_four (n : Nat) : ∃ l0 l1 l2 l3, beBytes 4 n = [l0, l1, l2, l3] :=
  ⟨_, _, _, _, rfl⟩

/-- What `put_block` wrote, `take_block` reads back, whatever follows. -/
theorem takeBlock_bytes (f : Frame) (rest : Bytes) :
    takeBlock (f.bytes ++ rest) = .ok (f.kind, f.payload, rest) := by
  obtain ⟨l0, l1, l2, l3, hl⟩ := exists_beBytes_four f.payload.length
  have hn : beNat [l0, l1, l2, l3] = f.payload.length := by
    rw [← hl]
    exact beNat_beBytes_of_lt (pow_four_eq ▸ f.fits)
  rw [Frame.bytes_append hl, takeBlock]
  simp only [ne_eq, not_true_eq_false, or_self, if_false, FrameKind.fromU8_toU8, hn,
    List.length_append, Nat.not_lt_of_le (Nat.le_add_right _ _), List.take_left, List.drop_left]

/-- `take_block` accepts nothing but frames. -/
theorem takeBlock_inv {input : Bytes} {kind : FrameKind} {payload rest : Bytes}
    (h : takeBlock input = .ok (kind, payload, rest)) :
    ∃ f : Frame, f.kind = kind ∧ f.payload = payload ∧ f.bytes ++ rest = input := by
  unfold takeBlock at h
  split at h
  · rename_i m0 m1 version v l0 l1 l2 l3 input
    split at h
    · cases h
    rename_i hmagic
    split at h
    · cases h
    rename_i hversion
    split at h
    · cases h
    rename_i kind' hkind
    dsimp only at h
    split at h
    · cases h
    rename_i hlen
    obtain ⟨rfl, rfl, rfl⟩ : kind' = kind ∧ input.take (beNat [l0, l1, l2, l3]) = payload ∧
        input.drop (beNat [l0, l1, l2, l3]) = rest := by simpa using h
    have hlt := beNat_lt [l0, l1, l2, l3]
    rw [show [l0, l1, l2, l3].length = 4 from rfl, pow_four_eq] at hlt
    have htake : (input.take (beNat [l0, l1, l2, l3])).length = beNat [l0, l1, l2, l3] := by
      rw [List.length_take]
      omega
    refine ⟨⟨kind', input.take (beNat [l0, l1, l2, l3]), htake.trans_lt hlt⟩, rfl, rfl, ?_⟩
    push Not at hmagic hversion
    have hbe : beBytes 4 (input.take (beNat [l0, l1, l2, l3])).length = [l0, l1, l2, l3] := by
      rw [htake]
      exact beBytes_beNat [l0, l1, l2, l3]
    rw [Frame.bytes_append (f := ⟨kind', _, htake.trans_lt hlt⟩) hbe, hmagic.1, hmagic.2, hversion,
      FrameKind.toU8_of_fromU8 hkind, List.take_append_drop]
  · cases h

lemma takeBlock_rest_lt {input : Bytes} {kind : FrameKind} {payload rest : Bytes}
    (h : takeBlock input = .ok (kind, payload, rest)) : rest.length < input.length := by
  obtain ⟨f, -, -, rfl⟩ := takeBlock_inv h
  simp

/-- Frames as a prefix code read by `take_block`. -/
def frameCode : PrefixCode Frame UInt8 where
  encode := Frame.bytes
  take input := match takeBlock input with
    | .error _ => none
    | .ok (kind, payload, rest) =>
      if h : payload.length < u32Limit then some (⟨kind, payload, h⟩, rest) else none
  take_encode f rest := by
    rw [takeBlock_bytes]
    simp [f.fits]
  encode_take input f rest h := by
    split at h
    · cases h
    · rename_i kind payload rest' htake
      obtain ⟨g, rfl, rfl, rfl⟩ := takeBlock_inv htake
      simp only [g.fits, dite_true, Option.some.injEq, Prod.mk.injEq] at h
      obtain ⟨rfl, rfl⟩ := h
      rfl
  encode_ne_nil := Frame.bytes_ne_nil

@[simp] lemma frameCode_encode (f : Frame) : frameCode.encode f = f.bytes := rfl

end WpConnectorUtils.Codec
