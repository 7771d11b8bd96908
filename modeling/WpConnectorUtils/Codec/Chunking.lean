import WpConnectorUtils.Library.Chunks
import WpConnectorUtils.Codec.Matching

/-!
# Chunking

The compressing encoder alone emits, for every segment of input between two `finish` calls, the
frames of its blocks and of what remains, however the segment was cut into `encode` calls.
-/

namespace WpConnectorUtils.Codec
open Chunks

variable {W : Type}

/-! ### Segments -/

/-- The inputs that a `finish` has closed, and the input since the last one. -/
structure Segments where
  closed : List Bytes
  current : Bytes
  deriving DecidableEq

def segmenter : Machine Segments Call Unit where
  step
    | .encode chunk, s => ((), { s with current := s.current ++ chunk })
    | .finish, s => ((), ⟨s.closed ++ [s.current], []⟩)

lemma segmenter_encode (chunk : Bytes) (s : Segments) :
    (segmenter.step (.encode chunk) s).2 = ⟨s.closed, s.current ++ chunk⟩ := rfl

lemma segmenter_finish (s : Segments) :
    (segmenter.step .finish s).2 = ⟨s.closed ++ [s.current], []⟩ := rfl

def segments (calls : List Call) : Segments := segmenter.run calls ⟨[], []⟩

def Call.isFinish : Call → Bool
  | .encode _ => false
  | .finish => true

def finishes (calls : List Call) : Nat := calls.countP Call.isFinish

/-- The frames of a closed segment: one for every block, and one for the remainder if there is one. -/
def segmentWire (kind : FrameKind) (zip : Bytes → Bytes) (segment : Bytes) : Bytes :=
  ((chunks compressBlockSize segment).map fun block => frame kind (zip block)).flatten

/-- The frames of a segment that is still open: one for every block. -/
def openWire (kind : FrameKind) (zip : Bytes → Bytes) (segment : Bytes) : Bytes :=
  ((whole compressBlockSize segment).map fun block => frame kind (zip block)).flatten

def referenceWire (kind : FrameKind) (zip : Bytes → Bytes) (s : Segments) : Bytes :=
  (s.closed.map (segmentWire kind zip)).flatten ++ openWire kind zip s.current

lemma segments_append (calls more : List Call) :
    segments (calls ++ more) = segmenter.run more (segments calls) :=
  segmenter.run_append calls more _

lemma segments_finish (before : List Call) :
    segments (before ++ [Call.finish]) =
      ⟨(segments before).closed ++ [(segments before).current], []⟩ :=
  segments_append before [Call.finish]

/-- Every `finish` closes one segment. -/
lemma closed_run (calls : List Call) (s : Segments) :
    ∃ more, (segmenter.run calls s).closed = s.closed ++ more ∧ more.length = finishes calls := by
  induction calls generalizing s with
  | nil => exact ⟨[], by simp [Machine.run], rfl⟩
  | cons call calls ih =>
    obtain ⟨more, hmore, hlen⟩ := ih (segmenter.step call s).2
    have hrun : segmenter.run (call :: calls) s = segmenter.run calls (segmenter.step call s).2 := rfl
    cases call with
    | encode chunk =>
      have hcount : finishes (.encode chunk :: calls) = finishes calls :=
        List.countP_cons_of_neg (by simp [Call.isFinish])
      exact ⟨more, hrun ▸ hmore, hlen.trans hcount.symm⟩
    | finish =>
      have hcount : finishes (.finish :: calls) = finishes calls + 1 :=
        List.countP_cons_of_pos (by decide)
      refine ⟨s.current :: more, ?_, ?_⟩
      · rw [hrun, hmore, List.append_cons]
        rfl
      · rw [List.length_cons, hlen, hcount]

lemma length_closed (calls : List Call) : (segments calls).closed.length = finishes calls := by
  obtain ⟨more, hmore, hlen⟩ := closed_run calls ⟨[], []⟩
  unfold segments
  rw [hmore, List.nil_append, hlen]

/-- Calls with the same segments have the same ones up to corresponding calls of `finish`. -/
lemma segments_before_finish {before after before' after' : List Call}
    (h : segments (before ++ Call.finish :: after) = segments (before' ++ Call.finish :: after'))
    (hcount : finishes before = finishes before') :
    segments (before ++ [Call.finish]) = segments (before' ++ [Call.finish]) := by
  have hsplit : ∀ front back : List Call, ∃ more,
      (segments (front ++ Call.finish :: back)).closed =
        (segments (front ++ [Call.finish])).closed ++ more := by
    intro front back
    obtain ⟨more, hmore, -⟩ := closed_run back (segments (front ++ [Call.finish]))
    rw [List.append_cons, segments_append]
    exact ⟨more, hmore⟩
  obtain ⟨more, hmore⟩ := hsplit before after
  obtain ⟨more', hmore'⟩ := hsplit before' after'
  rw [h, hmore'] at hmore
  have hlen : (segments (before ++ [Call.finish])).closed.length =
      (segments (before' ++ [Call.finish])).closed.length := by
    rw [segments_finish, segments_finish, List.length_append, List.length_append, length_closed,
      length_closed, hcount]
    rfl
  have hclosed := (List.append_inj hmore hlen.symm).1
  rw [segments_finish, segments_finish] at hclosed ⊢
  exact congrArg (fun closed => Segments.mk closed []) hclosed.symm

/-- Calls of `encode` lengthen the open segment. -/
lemma segments_encodes (before : List Call) (inputs : List Bytes) :
    segments (before ++ inputs.map Call.encode) =
      ⟨(segments before).closed, (segments before).current ++ inputs.flatten⟩ := by
  rw [segments_append]
  generalize segments before = s
  induction inputs generalizing s with
  | nil => simp [Machine.run]
  | cons chunk inputs ih =>
    have hrun : segmenter.run ((chunk :: inputs).map Call.encode) s =
        segmenter.run (inputs.map Call.encode) ⟨s.closed, s.current ++ chunk⟩ := rfl
    rw [hrun, ih, List.flatten_cons, List.append_assoc]

/-! ### The compressor as a function -/

namespace BlockCompressor

/-- In every world, a block compresses to its `zip`, which fits a frame. -/
def Computes (c : BlockCompressor W) (zip : Bytes → Bytes) : Prop :=
  ∀ block, block.length ≤ compressBlockSize →
    (∀ w, (c.compress block c.level w).1 = .ok (zip block)) ∧ (zip block).length < u32Limit

variable {c : BlockCompressor W} {zip : Bytes → Bytes} {call : Call} {w w' : W}
  {blocks : List Bytes} {bad rest : Bytes} {fs : List Frame}

lemma Computes.hold (hc : c.Computes zip) (buffer : Bytes) : (c.hold buffer).Computes zip := hc

lemma Packs.bytes_eq (hc : c.Computes zip) {block : Bytes} {f : Frame} (h : c.Packs w block f w')
    (hlen : block.length ≤ compressBlockSize) : f.bytes = frame c.kind (zip block) := by
  have hzip := (hc block hlen).1 w
  rw [h.2] at hzip
  rw [Frame.bytes_eq, h.1, Except.ok.inj hzip]

lemma not_rejects (hc : c.Computes zip) {block : Bytes} (hlen : block.length ≤ compressBlockSize) :
    ¬c.Rejects w block := by
  intro h
  obtain ⟨hzip, hfits⟩ := hc block hlen
  exact h ⟨c.kind, zip block, hfits⟩ _ ⟨rfl, Prod.ext (hzip w) rfl⟩

lemma PacksAll.stream_eq (hc : c.Computes zip) (h : c.PacksAll w blocks fs w')
    (hlen : ∀ b ∈ blocks, b.length ≤ compressBlockSize) :
    frameCode.stream fs = (blocks.map fun block => frame c.kind (zip block)).flatten := by
  induction h with
  | nil => rfl
  | cons hf _ ih =>
    rw [List.forall_mem_cons] at hlen
    rw [PrefixCode.stream_cons, frameCode_encode, hf.bytes_eq hc hlen.1, ih hlen.2]
    rfl

/-- No call breaks while the buffer is shorter than a block. -/
lemma not_breaks (hc : c.Computes zip) (hshort : c.buffer.length < compressBlockSize) :
    ¬c.Breaks call w blocks bad rest fs w' := by
  intro h
  cases h with
  | encode h => exact not_rejects hc h.bad_full.le h.rejects
  | finish _ h => exact not_rejects hc hshort.le h

end BlockCompressor

/-! ### One call -/

section Reference

variable {kind : FrameKind} {zip : Bytes → Bytes}

lemma openWire_encode {current chunk rest' : Bytes} {blocks : List Bytes}
    (hsplit : rest compressBlockSize current ++ chunk = blocks.flatten ++ rest')
    (hfull : ∀ b ∈ blocks, b.length = compressBlockSize) (hshort : rest'.length < compressBlockSize) :
    openWire kind zip (current ++ chunk) =
      openWire kind zip current ++ (blocks.map fun block => frame kind (zip block)).flatten := by
  have hwhole := (cut_append compressBlockSize_pos hsplit hfull hshort).1
  unfold openWire
  rw [hwhole, List.map_append, List.flatten_append]

lemma openWire_nil : openWire kind zip [] = [] := by
  unfold openWire
  rw [whole_of_short compressBlockSize_pos]
  rfl

/-- A `finish` adds the frame of the remainder, if there is one. -/
lemma segmentWire_of_empty {segment : Bytes} (h : rest compressBlockSize segment = []) :
    segmentWire kind zip segment = openWire kind zip segment := by
  unfold segmentWire openWire chunks
  rw [h]
  rfl

lemma segmentWire_of_rest {segment : Bytes} (h : rest compressBlockSize segment ≠ []) :
    segmentWire kind zip segment =
      openWire kind zip segment ++ frame kind (zip (rest compressBlockSize segment)) := by
  unfold segmentWire openWire chunks
  rw [if_neg (by simpa using h), List.map_append, List.flatten_append]
  simp

lemma segmentWire_nil : segmentWire kind zip [] = [] := by
  unfold segmentWire
  rw [chunks_nil]
  rfl

lemma referenceWire_closed (closed : List Bytes) (segment : Bytes) :
    referenceWire kind zip ⟨closed ++ [segment], []⟩ =
      (closed.map (segmentWire kind zip)).flatten ++ segmentWire kind zip segment := by
  unfold referenceWire
  rw [openWire_nil, List.append_nil, List.map_append, List.flatten_append]
  simp

end Reference

/-- The session has emitted what the segments call for, and its buffer is what lies beyond the last
whole block. -/
structure Follows (c : BlockCompressor W) (zip : Bytes → Bytes) (prior : Bytes) (s : Segments)
    (t : Session (LayeredEncoder W) W) : Prop where
  encoder : t.encoder = ⟨some (c.hold (rest compressBlockSize s.current)), none⟩
  wire : t.wire = prior ++ referenceWire c.kind zip s

section Steps

variable {c : BlockCompressor W} {zip : Bytes → Bytes} {prior : Bytes} {s : Segments}

/-- What the compressor emits for a call is what the segments call for. -/
lemma BlockCompressor.Emits.follows (hc : c.Computes zip) {call : Call} {w w' : W}
    {blocks : List Bytes} {rest' : Bytes} {fs : List Frame}
    (h : (c.hold (rest compressBlockSize s.current)).Emits call w blocks rest' fs w') :
    rest' = rest compressBlockSize (segmenter.step call s).2.current ∧
      referenceWire c.kind zip (segmenter.step call s).2 =
        referenceWire c.kind zip s ++ frameCode.stream fs := by
  obtain ⟨-, -, hshort⟩ := cut compressBlockSize_pos s.current
  have hheld := hc.hold (rest compressBlockSize s.current)
  cases h with
  | @encode chunk _ _ _ _ _ hd =>
    have hlen : ∀ b ∈ blocks, b.length ≤ compressBlockSize := fun b hb => (hd.full b hb).le
    have hstream := hd.packs.stream_eq hheld hlen
    rw [BlockCompressor.hold_kind] at hstream
    rw [segmenter_encode]
    constructor
    · exact (cut_append compressBlockSize_pos hd.split hd.full hd.short).2.symm
    · unfold referenceWire
      dsimp only
      rw [openWire_encode hd.split hd.full hd.short, hstream, List.append_assoc]
  | finishEmpty hempty =>
    have hrest : rest compressBlockSize s.current = [] := hempty
    rw [segmenter_finish]
    constructor
    · exact (rest_of_short compressBlockSize_pos).symm
    · rw [referenceWire_closed, segmentWire_of_empty hrest, PrefixCode.stream_nil, List.append_nil,
        referenceWire]
  | @finish _ _ f hne hf =>
    have hrest : rest compressBlockSize s.current ≠ [] := hne
    have hbytes := hf.bytes_eq hheld hshort.le
    rw [BlockCompressor.hold_kind, BlockCompressor.hold_buffer] at hbytes
    rw [segmenter_finish]
    constructor
    · exact (rest_of_short compressBlockSize_pos).symm
    · rw [referenceWire_closed, segmentWire_of_rest hrest, PrefixCode.stream_cons, frameCode_encode,
        hbytes, PrefixCode.stream_nil, List.append_nil, ← List.append_assoc, referenceWire]

variable [Crates W]

/-- Every call succeeds and follows the segments. -/
lemma Follows.step (hc : c.Computes zip) {t : Session (LayeredEncoder W) W}
    (h : Follows c zip prior s t) (call : Call) :
    Succeeded ((sessions (LayeredEncoder W) W).step call t).1 ∧
      Follows c zip prior (segmenter.step call s).2
        ((sessions (LayeredEncoder W) W).step call t).2 := by
  obtain ⟨enc, wire, w⟩ := t
  obtain ⟨henc, hwire⟩ := h
  dsimp only at henc hwire
  subst henc
  have hl : LayeredEncoder.Layered
      (⟨some (c.hold (rest compressBlockSize s.current)), none⟩ : LayeredEncoder W) := by
    simp [LayeredEncoder.Layered]
  obtain ⟨result, enc', fs, w', hstep, hcall⟩ := LayeredEncoder.call_step hl call w
  rw [sessions_step (hcall wire)]
  cases hstep with
  | compressed hemits =>
    obtain ⟨hrest, href⟩ := hemits.follows hc
    refine ⟨rfl, ?_, ?_⟩
    · rw [hrest, BlockCompressor.hold_hold]
    · rw [hwire, href, List.append_assoc]
  | jammed hbreaks =>
    obtain ⟨-, -, hshort⟩ := cut compressBlockSize_pos s.current
    have hheld := hc.hold (rest compressBlockSize s.current)
    exact absurd hbreaks (BlockCompressor.not_breaks hheld hshort)

/-- So does every run. -/
theorem follows_run (hc : c.Computes zip) (hbuffer : c.buffer = []) (calls : List Call)
    (prior : Bytes) (w : W) :
    (sessions (LayeredEncoder W) W).Accepts Succeeded calls ⟨⟨some c, none⟩, prior, w⟩ ∧
      Follows c zip prior (segments calls)
        ((sessions (LayeredEncoder W) W).run calls ⟨⟨some c, none⟩, prior, w⟩) := by
  have hstart : Follows c zip prior ⟨[], []⟩ ⟨⟨some c, none⟩, prior, w⟩ := by
    constructor
    · have hhold : c.hold [] = c := by rw [← hbuffer, BlockCompressor.hold_self]
      rw [rest_of_short compressBlockSize_pos, hhold]
    · rw [referenceWire, openWire_nil]
      simp
  have haccepts : segmenter.Accepts (fun _ => True) calls ⟨[], []⟩ :=
    segmenter.accepts_of_forall (fun _ => trivial) calls _
  exact segmenter.lockstep (fun call s t h _ => h.step hc call) calls hstart haccepts

end Steps

/-! ### Runs of built encoders -/

def algoKind : CompressionAlgo → FrameKind
  | .gzip => .gzip
  | .zstd => .zstd

/-- Compression is a function of the block and the level; what it makes of a block fits a frame. -/
structure Crates.Compresses (W : Type) [Crates W] (deflate : Bytes → Nat → Bytes)
    (zstd : Bytes → Int → Bytes) : Prop where
  gzEncode : ∀ block level (w : W), (Crates.gzEncode block level w).1 = .ok (deflate block level)
  zstdCompress : ∀ block level (w : W), (Crates.zstdCompress block level w).1 = .ok (zstd block level)
  gz_fits : ∀ block level, block.length ≤ compressBlockSize → (deflate block level).length < u32Limit
  zstd_fits : ∀ block level, block.length ≤ compressBlockSize → (zstd block level).length < u32Limit

/-- What a block is compressed to; gzip clamps the level. -/
def compressedBlock (deflate : Bytes → Nat → Bytes) (zstd : Bytes → Int → Bytes)
    (cfg : CompressConfig) (block : Bytes) : Bytes :=
  match cfg.algo with
  | .gzip => deflate block (max 0 (min cfg.level 9)).toNat
  | .zstd => zstd block cfg.level

section Build

variable [Crates W] {deflate : Bytes → Nat → Bytes} {zstd : Bytes → Int → Bytes}

lemma buildCompressor_kind (cfg : CompressConfig) :
    (buildCompressor cfg : BlockCompressor W).kind = algoKind cfg.algo := by
  obtain ⟨algo, level⟩ := cfg
  cases algo <;> rfl

lemma computes_of_build (hzip : Crates.Compresses W deflate zstd) (cfg : CompressConfig) :
    (buildCompressor cfg : BlockCompressor W).Computes (compressedBlock deflate zstd cfg) := by
  obtain ⟨algo, level⟩ := cfg
  intro block hlen
  cases algo with
  | gzip =>
    refine ⟨?_, hzip.gz_fits block _ hlen⟩
    intro w
    exact congrArg (Except.mapError CodecError.compress) (hzip.gzEncode block _ w)
  | zstd =>
    refine ⟨?_, hzip.zstd_fits block level hlen⟩
    intro w
    exact congrArg (Except.mapError CodecError.compress) (hzip.zstdCompress block level w)

/-- What the session has done after `calls`, told by their segments alone: every call succeeded; the
wire is the reference wire; the buffer is what the open segment has beyond its last whole block, and
empty after `finish`; a segment emits its own frames, and a second `finish` nothing. -/
structure EmitsSegments (enc : LayeredEncoder W) (kind : FrameKind) (zip : Bytes → Bytes)
    (prior : Bytes) (w : W) (calls : List Call) : Prop where
  accepted : (sessions (LayeredEncoder W) W).Accepts Succeeded calls ⟨enc, prior, w⟩
  wire : ((sessions (LayeredEncoder W) W).run calls ⟨enc, prior, w⟩).wire =
    prior ++ referenceWire kind zip (segments calls)
  pending : LayeredEncoder.pending ((sessions (LayeredEncoder W) W).run calls ⟨enc, prior, w⟩).encoder =
    (segments calls).current.drop
      ((segments calls).current.length / compressBlockSize * compressBlockSize)
  short : (LayeredEncoder.pending
    ((sessions (LayeredEncoder W) W).run calls ⟨enc, prior, w⟩).encoder).length < compressBlockSize
  flushed : LayeredEncoder.pending
    ((sessions (LayeredEncoder W) W).run (calls ++ [Call.finish]) ⟨enc, prior, w⟩).encoder = []
  segment : (segments calls).current = [] → ∀ inputs : List Bytes,
    ((sessions (LayeredEncoder W) W).run (calls ++ inputs.map Call.encode ++ [Call.finish])
        ⟨enc, prior, w⟩).wire =
      ((sessions (LayeredEncoder W) W).run calls ⟨enc, prior, w⟩).wire ++
        segmentWire kind zip inputs.flatten
  again : ((sessions (LayeredEncoder W) W).run (calls ++ [Call.finish, Call.finish])
      ⟨enc, prior, w⟩).wire =
    ((sessions (LayeredEncoder W) W).run (calls ++ [Call.finish]) ⟨enc, prior, w⟩).wire

lemma emits_of_computes {c : BlockCompressor W} {zip : Bytes → Bytes} (hc : c.Computes zip)
    (hbuffer : c.buffer = []) (calls : List Call) (prior : Bytes) (w : W) :
    EmitsSegments ⟨some c, none⟩ c.kind zip prior w calls := by
  have hfollows := fun calls => (follows_run hc hbuffer calls prior w).2
  have hpending : ∀ calls, LayeredEncoder.pending
      ((sessions (LayeredEncoder W) W).run calls ⟨⟨some c, none⟩, prior, w⟩).encoder =
        rest compressBlockSize (segments calls).current := by
    intro calls
    rw [(hfollows calls).encoder, LayeredEncoder.pending_compress, BlockCompressor.hold_buffer]
  refine ⟨(follows_run hc hbuffer calls prior w).1, (hfollows calls).wire, ?_, ?_, ?_, ?_, ?_⟩
  · rw [hpending, rest]
  · rw [hpending]
    exact (cut compressBlockSize_pos _).2.2
  · rw [hpending, segments_finish]
    exact rest_of_short compressBlockSize_pos
  · intro hcurrent inputs
    have hempty : referenceWire c.kind zip (segments calls) =
        ((segments calls).closed.map (segmentWire c.kind zip)).flatten := by
      rw [referenceWire, hcurrent, openWire_nil, List.append_nil]
    rw [(hfollows _).wire, (hfollows calls).wire, segments_finish, segments_encodes, hcurrent,
      referenceWire_closed, hempty, List.append_assoc, List.nil_append]
  · have hlast : calls ++ [Call.finish, Call.finish] = calls ++ [Call.finish] ++ [Call.finish] := by
      simp
    rw [(hfollows _).wire, (hfollows _).wire, hlast, segments_finish, segments_finish calls,
      referenceWire_closed, segmentWire_nil, List.append_nil, referenceWire, openWire_nil,
      List.append_nil]

/-- The compressed wire depends on the segments of the input alone: calls with the same segments
have emitted the same after each corresponding `finish`, whatever their chunks. -/
theorem chunking_irrelevant (hzip : Crates.Compresses W deflate zstd) {cfg : CompressConfig}
    {enc : LayeredEncoder W} (henc : buildEncoder (some cfg) none = .ok enc) :
    (∀ calls prior w, EmitsSegments enc (algoKind cfg.algo) (compressedBlock deflate zstd cfg) prior w
      calls) ∧
    ∀ calls calls' : List Call, segments calls = segments calls' → ∀ prior (w w' : W),
      ((sessions (LayeredEncoder W) W).run calls ⟨enc, prior, w⟩).wire =
        ((sessions (LayeredEncoder W) W).run calls' ⟨enc, prior, w'⟩).wire ∧
      ∀ before after before' after', calls = before ++ Call.finish :: after →
        calls' = before' ++ Call.finish :: after' → finishes before = finishes before' →
        ((sessions (LayeredEncoder W) W).run (before ++ [Call.finish]) ⟨enc, prior, w⟩).wire =
          ((sessions (LayeredEncoder W) W).run (before' ++ [Call.finish]) ⟨enc, prior, w'⟩).wire := by
  obtain ⟨hc, he⟩ := buildEncoder_ok henc
  obtain ⟨compress, encrypt⟩ := enc
  dsimp only [Option.map] at hc
  subst hc
  cases he
  have hrun := fun calls prior w => emits_of_computes (computes_of_build hzip cfg) rfl calls prior w
  rw [buildCompressor_kind] at hrun
  refine ⟨hrun, ?_⟩
  intro calls calls' hsame prior w w'
  constructor
  · rw [(hrun calls prior w).wire, (hrun calls' prior w').wire, hsame]
  · rintro before after before' after' rfl rfl hcount
    rw [(hrun (before ++ [Call.finish]) prior w).wire,
      (hrun (before' ++ [Call.finish]) prior w').wire, segments_before_finish hsame hcount]

end Build

/-! ### A sample of total compression

The real answers on a text and, for `zstd`, on a block of one letter; any other block is taken over
as it is. -/

structure TotalWorld where

namespace TotalWorld

def letters : Bytes := List.replicate compressBlockSize 0x61

def zstdLetters : Bytes :=
  [0x28, 0xb5, 0x2f, 0xfd, 0x60, 0x00, 0xff, 0x55, 0x00, 0x00, 0x10, 0x61, 0x61, 0x01, 0x00, 0xfb,
    0x7f, 0x1d, 0x60, 0x01]

def deflate (block : Bytes) : Bytes :=
  if block = SampleWorld.text then SampleWorld.gzipText else block

def zstd (block : Bytes) : Bytes :=
  if block = SampleWorld.text then SampleWorld.zstdText
  else if block = letters then zstdLetters
  else block

instance : Crates TotalWorld where
  gzEncode data _ w := (.ok (deflate data), w)
  gzDecode data := Crates.gzDecode SampleWorld data
  zstdCompress data _ w := (.ok (zstd data), w)
  zstdDecodeAll data := Crates.zstdDecodeAll SampleWorld data
  randomFill w := (.ok SampleWorld.nonce, w)
  unboundKey key := Crates.unboundKey SampleWorld key
  ringSeal key nonce aad p w := ((Crates.ringSeal key nonce aad p (⟨true⟩ : SampleWorld)).1, w)
  ringOpen key nonce aad c := Crates.ringOpen SampleWorld key nonce aad c
  sm4Encrypt key nonce aad p w := ((Crates.sm4Encrypt key nonce aad p (⟨true⟩ : SampleWorld)).1, w)
  sm4Decrypt key nonce aad c := Crates.sm4Decrypt SampleWorld key nonce aad c

lemma deflate_fits {block : Bytes} (hlen : block.length ≤ compressBlockSize) :
    (deflate block).length < u32Limit := by
  unfold deflate
  split_ifs
  · decide
  · exact hlen.trans_lt (by decide)

lemma zstd_fits {block : Bytes} (hlen : block.length ≤ compressBlockSize) :
    (zstd block).length < u32Limit := by
  unfold zstd
  split_ifs
  · decide
  · decide
  · exact hlen.trans_lt (by decide)

lemma compresses : Crates.Compresses TotalWorld (fun block _ => deflate block) (fun block _ => zstd block) where
  gzEncode _ _ _ := rfl
  zstdCompress _ _ _ := rfl
  gz_fits _ _ hlen := deflate_fits hlen
  zstd_fits _ _ hlen := zstd_fits hlen

lemma length_letters : letters.length = compressBlockSize := List.length_replicate

lemma zstd_letters : zstd letters = zstdLetters := by
  have hne : letters ≠ SampleWorld.text := by
    intro h
    have hlen := congrArg List.length h
    rw [length_letters] at hlen
    cases hlen
  unfold zstd
  rw [if_neg hne, if_pos rfl]

lemma reference_letters : referenceWire (algoKind .zstd)
    (compressedBlock (fun block _ => deflate block) (fun block _ => zstd block) {})
    (segments [.encode (letters ++ SampleWorld.text), .finish]) =
      frame .zstd zstdLetters ++ SampleWorld.framedText := by
  have hzip : compressedBlock (fun block _ => deflate block) (fun block _ => zstd block) {} = zstd := rfl
  have hsegments : segments [.encode (letters ++ SampleWorld.text), .finish] =
      ⟨[letters ++ SampleWorld.text], []⟩ :=
    segments_finish [.encode (letters ++ SampleWorld.text)]
  rw [hzip, hsegments, referenceWire, openWire_nil, List.append_nil, List.map_singleton,
    List.flatten_singleton, segmentWire, chunks_append compressBlockSize_pos length_letters,
    chunks_of_short (by decide) (by decide), List.map_cons, List.map_singleton, List.flatten_cons,
    List.flatten_singleton, zstd_letters]
  rfl

end TotalWorld

open TotalWorld in
/-- A block and a text in one call, and with the block cut anywhere and an empty call. -/
theorem chunking_irrelevant_sample :
    let M := sessions (LayeredEncoder TotalWorld) TotalWorld
    let enc : LayeredEncoder TotalWorld := ⟨some (buildCompressor {}), none⟩
    let wire := frame .zstd zstdLetters ++ SampleWorld.framedText
    (M.run [.encode (letters ++ SampleWorld.text), .finish] ⟨enc, [], ⟨⟩⟩).wire = wire ∧
      ∀ k, k ≤ compressBlockSize → (M.run [.encode (List.replicate k 0x61), .encode [],
        .encode (List.replicate (compressBlockSize - k) 0x61 ++ [0x68]), .encode [0x69], .finish]
          ⟨enc, [], ⟨⟩⟩).wire = wire := by
  intro M enc wire
  have hzip := @chunking_irrelevant TotalWorld _ _ _ TotalWorld.compresses {} enc rfl
  have hone := (hzip.1 [.encode (letters ++ SampleWorld.text), .finish] [] ⟨⟩).wire
  rw [List.nil_append, reference_letters] at hone
  refine ⟨hone, ?_⟩
  intro k hk
  have hletters : letters = List.replicate k 0x61 ++ List.replicate (compressBlockSize - k) 0x61 := by
    rw [List.replicate_append_replicate, Nat.add_sub_cancel' hk, letters]
  have hsegments : segments [.encode (letters ++ SampleWorld.text), .finish] =
      segments [.encode (List.replicate k 0x61), .encode [],
        .encode (List.replicate (compressBlockSize - k) 0x61 ++ [0x68]), .encode [0x69], .finish] := by
    rw [hletters]
    generalize List.replicate k (0x61 : UInt8) = front
    generalize List.replicate (compressBlockSize - k) (0x61 : UInt8) = back
    simp [segments, segmenter, Machine.run, SampleWorld.text]
  exact (hzip.2 _ _ hsegments [] ⟨⟩ ⟨⟩).1.symm.trans hone

end WpConnectorUtils.Codec
