import WpConnectorUtils.Library.Chunks
import WpConnectorUtils.Codec.DecodeLoop

/-!
# Block compression

`BlockCompressor` collects input and emits one compressed frame per full block;
`BlockDecompressor` opens such frames. Each block is taken out of the buffer before it is
compressed and framed, so the outcome of a flush is described by the blocks that were packed
and, when it fails, by the one block that was taken out and rejected.
-/

namespace WpConnectorUtils.Codec

def compressBlockSize : Nat := 64 * 1024

lemma compressBlockSize_pos : 0 < compressBlockSize := by
  norm_num [compressBlockSize]

abbrev CompressFn (W : Type) := Bytes → Int → W → Except CodecError Bytes × W

abbrev DecompressFn := Bytes → Except CodecError Bytes

def gzipCompress {W : Type} [Crates W] : CompressFn W := fun data level w =>
  let level := (max 0 (min level 9)).toNat
  let (compressed, w) := Crates.gzEncode data level w
  (compressed.mapError .compress, w)

def gzipDecompress (W : Type) [Crates W] : DecompressFn := fun data =>
  (Crates.gzDecode W data).mapError .decode

def zstdCompress {W : Type} [Crates W] : CompressFn W := fun data level w =>
  let (compressed, w) := Crates.zstdCompress data level w
  (compressed.mapError .compress, w)

def zstdDecompress (W : Type) [Crates W] : DecompressFn := fun data =>
  (Crates.zstdDecodeAll W data).mapError .decode

structure BlockCompressor (W : Type) where
  buffer : Bytes
  level : Int
  kind : FrameKind
  compress : CompressFn W

structure BlockDecompressor where
  kind : FrameKind
  decompress : DecompressFn

namespace BlockCompressor

variable {W : Type}

/-- The compressor with another buffer. -/
def hold (self : BlockCompressor W) (buffer : Bytes) : BlockCompressor W :=
  { self with buffer := buffer }

/-- `put_block(output, self.kind, &(self.compress)(&block, self.level)?)` -/
def putCompressed (self : BlockCompressor W) (block output : Bytes) (w : W) :
    (Except CodecError Unit × Bytes) × W :=
  match self.compress block self.level w with
  | (.error e, w) => ((.error e, output), w)
  | (.ok payload, w) => (putBlock output self.kind payload, w)

def flush (self : BlockCompressor W) (output : Bytes) (w : W) : Outcome (BlockCompressor W) × W :=
  if self.buffer.length ≥ compressBlockSize then
    let block := self.buffer.take compressBlockSize
    let drained := self.hold (self.buffer.drop compressBlockSize)
    match self.putCompressed block output w with
    | ((.error e, output), w) => (⟨.error e, drained, output⟩, w)
    | ((.ok (), output), w) => flush drained output w
  else (⟨.ok (), self, output⟩, w)
termination_by self.buffer.length
decreasing_by
  have hpos := compressBlockSize_pos
  simp only [hold, List.length_drop]
  omega

def encode (self : BlockCompressor W) (input output : Bytes) (w : W) :
    Outcome (BlockCompressor W) × W :=
  (self.hold (self.buffer ++ input)).flush output w

def finish (self : BlockCompressor W) (output : Bytes) (w : W) : Outcome (BlockCompressor W) × W :=
  if ¬self.buffer.isEmpty then
    let block := self.buffer
    let taken := self.hold []
    match self.putCompressed block output w with
    | ((result, output), w) => (⟨result, taken, output⟩, w)
  else (⟨.ok (), self, output⟩, w)

instance : Encoder (BlockCompressor W) W where
  encode := encode
  finish := finish

end BlockCompressor

namespace BlockDecompressor

def handle (self : BlockDecompressor) : BlockHandler := fun kind payload =>
  if kind ≠ self.kind then .error (unexpectedKind kind self.kind)
  else self.decompress payload

def decode (self : BlockDecompressor) (input output : Bytes) : Outcome BlockDecompressor :=
  let (result, output) := decodeFrames self.handle input output
  ⟨result, self, output⟩

def finish (self : BlockDecompressor) (output : Bytes) : Outcome BlockDecompressor :=
  ⟨.ok (), self, output⟩

instance : Decoder BlockDecompressor where
  decode := decode
  finish := finish

lemma opens_iff (self : BlockDecompressor) (f : Frame) (d : Bytes) :
    Opens self.handle f d ↔ f.kind = self.kind ∧ self.decompress f.payload = .ok d := by
  unfold Opens handle
  by_cases h : f.kind = self.kind <;> simp [h]

end BlockDecompressor

/-! ### What a flush does -/

namespace BlockCompressor

variable {W : Type} (c : BlockCompressor W)

@[simp] lemma hold_buffer (buffer : Bytes) : (c.hold buffer).buffer = buffer := rfl

@[simp] lemma hold_kind (buffer : Bytes) : (c.hold buffer).kind = c.kind := rfl

@[simp] lemma hold_hold (b b' : Bytes) : (c.hold b).hold b' = c.hold b' := rfl

@[simp] lemma hold_self : c.hold c.buffer = c := rfl

/-- In world `w` the block compresses into frame `f`, which leaves world `w'`. -/
def Packs (w : W) (block : Bytes) (f : Frame) (w' : W) : Prop :=
  f.kind = c.kind ∧ c.compress block c.level w = (.ok f.payload, w')

/-- In world `w` the block fails to compress or is too large to frame. -/
def Rejects (w : W) (block : Bytes) : Prop := ∀ f w', ¬c.Packs w block f w'

/-- The blocks pack one after the other into the frames. -/
inductive PacksAll : W → List Bytes → List Frame → W → Prop
  | nil (w : W) : PacksAll w [] [] w
  | cons {w w' w'' : W} {b : Bytes} {bs : List Bytes} {f : Frame} {fs : List Frame} :
      c.Packs w b f w' → PacksAll w' bs fs w'' → PacksAll w (b :: bs) (f :: fs) w''

@[simp] lemma putCompressed_hold (buffer : Bytes) :
    (c.hold buffer).putCompressed = c.putCompressed := rfl

variable {c}

lemma putCompressed_of_packs {w w' : W} {block : Bytes} {f : Frame} (h : c.Packs w block f w')
    (output : Bytes) : c.putCompressed block output w = ((.ok (), output ++ f.bytes), w') := by
  unfold putCompressed
  rw [h.2]
  dsimp only
  rw [← h.1, putBlock_of_fits]

lemma putCompressed_of_rejects {w : W} {block : Bytes} (h : c.Rejects w block) :
    ∃ e w', ∀ output, c.putCompressed block output w = ((.error e, output), w') := by
  unfold putCompressed
  rcases hc : c.compress block c.level w with ⟨compressed, w'⟩
  cases compressed with
  | error e => exact ⟨e, w', fun _ => rfl⟩
  | ok payload =>
    by_cases hfits : payload.length < u32Limit
    · exact absurd ⟨rfl, hc⟩ (h ⟨c.kind, payload, hfits⟩ w')
    · obtain ⟨e, he⟩ := putBlock_too_large [] c.kind hfits
      refine ⟨e, w', fun output => ?_⟩
      dsimp only
      unfold putBlock at he ⊢
      rw [if_neg hfits] at he ⊢
      cases he
      rfl

lemma flush_short {buffer : Bytes} (h : buffer.length < compressBlockSize) (output : Bytes) (w : W) :
    (c.hold buffer).flush output w = (⟨.ok (), c.hold buffer, output⟩, w) := by
  rw [flush, if_neg (by simpa using h)]

lemma flush_block {block : Bytes} (hb : block.length = compressBlockSize) (rest output : Bytes)
    (w : W) : (c.hold (block ++ rest)).flush output w =
      match c.putCompressed block output w with
      | ((.error e, output), w) => (⟨.error e, c.hold rest, output⟩, w)
      | ((.ok (), output), w) => (c.hold rest).flush output w := by
  rw [flush, if_pos (by simp [hb])]
  simp only [hold_buffer, ← hb, List.take_left, List.drop_left, hold_hold, putCompressed_hold]

lemma flush_packed {w w' : W} {blocks : List Bytes} {fs : List Frame}
    (h : c.PacksAll w blocks fs w') (hfull : ∀ b ∈ blocks, b.length = compressBlockSize)
    (rest output : Bytes) : (c.hold (blocks.flatten ++ rest)).flush output w =
      (c.hold rest).flush (output ++ frameCode.stream fs) w' := by
  induction h generalizing output with
  | nil w => simp
  | cons hb _ ih =>
    rw [List.flatten_cons, List.append_assoc, flush_block (hfull _ (by simp)),
      putCompressed_of_packs hb]
    dsimp only
    rw [ih (fun b hmem => hfull b (by simp [hmem]))]
    simp

lemma flush_rejected {w : W} {block : Bytes} (hb : block.length = compressBlockSize)
    (h : c.Rejects w block) (rest : Bytes) : ∃ e w', ∀ output,
      (c.hold (block ++ rest)).flush output w = (⟨.error e, c.hold rest, output⟩, w') := by
  obtain ⟨e, w', he⟩ := putCompressed_of_rejects h
  refine ⟨e, w', fun output => ?_⟩
  rw [flush_block hb, he]

/-- The full blocks of `buffer`, all packed, and the remainder. -/
structure Drains (c : BlockCompressor W) (w : W) (buffer : Bytes) (blocks : List Bytes)
    (rest : Bytes) (fs : List Frame) (w' : W) : Prop where
  split : buffer = blocks.flatten ++ rest
  full : ∀ b ∈ blocks, b.length = compressBlockSize
  short : rest.length < compressBlockSize
  packs : c.PacksAll w blocks fs w'

/-- The full blocks of `buffer` that pack, the first one that is rejected, and what follows it. -/
structure Jams (c : BlockCompressor W) (w : W) (buffer : Bytes) (blocks : List Bytes)
    (bad rest : Bytes) (fs : List Frame) (w' : W) : Prop where
  split : buffer = blocks.flatten ++ (bad ++ rest)
  full : ∀ b ∈ blocks, b.length = compressBlockSize
  bad_full : bad.length = compressBlockSize
  packs : c.PacksAll w blocks fs w'
  rejects : c.Rejects w' bad

lemma drains_or_jams (c : BlockCompressor W) (w : W) (buffer : Bytes) :
    (∃ blocks rest fs w', c.Drains w buffer blocks rest fs w') ∨
      ∃ blocks bad rest fs w', c.Jams w buffer blocks bad rest fs w' := by
  induction buffer using Chunks.chunk_induction compressBlockSize_pos generalizing w with
  | short buffer hshort => exact .inl ⟨[], buffer, [], w, by simp, by simp, hshort, .nil w⟩
  | append block buffer hblock ih =>
    by_cases hrej : c.Rejects w block
    · exact .inr ⟨[], block, buffer, [], w, by simp, by simp, hblock, .nil w, hrej⟩
    simp only [Rejects, not_forall, not_not] at hrej
    obtain ⟨f, w', hf⟩ := hrej
    rcases ih w' with ⟨blocks, rest, fs, w'', hd⟩ | ⟨blocks, bad, rest, fs, w'', hj⟩
    · refine .inl ⟨block :: blocks, rest, f :: fs, w'', ?_, ?_, hd.short, .cons hf hd.packs⟩
      · rw [List.flatten_cons, List.append_assoc, ← hd.split]
      · exact List.forall_mem_cons.mpr ⟨hblock, hd.full⟩
    · refine .inr ⟨block :: blocks, bad, rest, f :: fs, w'', ?_, ?_, hj.bad_full,
        .cons hf hj.packs, hj.rejects⟩
      · rw [List.flatten_cons, List.append_assoc, ← hj.split]
      · exact List.forall_mem_cons.mpr ⟨hblock, hj.full⟩

theorem flush_of_drains {w w' : W} {buffer rest : Bytes} {blocks : List Bytes} {fs : List Frame}
    (h : c.Drains w buffer blocks rest fs w') (output : Bytes) :
    (c.hold buffer).flush output w =
      (⟨.ok (), c.hold rest, output ++ frameCode.stream fs⟩, w') := by
  rw [h.split, flush_packed h.packs h.full, flush_short h.short]

theorem flush_of_jams {w w' : W} {buffer bad rest : Bytes} {blocks : List Bytes} {fs : List Frame}
    (h : c.Jams w buffer blocks bad rest fs w') : ∃ e w'', ∀ output,
      (c.hold buffer).flush output w =
        (⟨.error e, c.hold rest, output ++ frameCode.stream fs⟩, w'') := by
  obtain ⟨e, w'', he⟩ := flush_rejected h.bad_full h.rejects rest
  refine ⟨e, w'', fun output => ?_⟩
  rw [h.split, flush_packed h.packs h.full, he]

end BlockCompressor

end WpConnectorUtils.Codec
