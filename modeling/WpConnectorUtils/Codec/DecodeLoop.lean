import WpConnectorUtils.Codec.Frame

/-!
# The frame loop of the decoders

`BlockDecompressor::decode` and `AeadDecoder::decode` run the same loop: take a block, check
and open it, append what it opens to. `decodeFrames` is that loop with the part inside it as
a parameter. It reads exactly the longest front of its input that is made of frames that open.
-/

namespace WpConnectorUtils.Codec

/-- Opens one block, or rejects it. -/
abbrev BlockHandler := FrameKind → Bytes → Except CodecError Bytes

def unexpectedKind (kind expected : FrameKind) : CodecError :=
  .decode s!"unexpected frame kind {kind.debug}, expected {expected.debug}"

def decodeFrames (handle : BlockHandler) (rest output : Bytes) : Except CodecError Unit × Bytes :=
  if rest.isEmpty then (.ok (), output)
  else
    match _h : takeBlock rest with
    | .error e => (.error e, output)
    | .ok (kind, payload, rest') =>
      match handle kind payload with
      | .error e => (.error e, output)
      | .ok data => decodeFrames handle rest' (output ++ data)
termination_by rest.length
decreasing_by exact takeBlock_rest_lt _h

/-- The handler opens frame `f` to `d`. -/
def Opens (handle : BlockHandler) (f : Frame) (d : Bytes) : Prop :=
  handle f.kind f.payload = .ok d

variable {handle : BlockHandler}

@[simp] lemma decodeFrames_nil (output : Bytes) :
    decodeFrames handle [] output = (.ok (), output) := by
  rw [decodeFrames]
  simp

lemma decodeFrames_untaken {r : Bytes} (hr : r ≠ []) {e : CodecError} (h : takeBlock r = .error e)
    (output : Bytes) : decodeFrames handle r output = (.error e, output) := by
  rw [decodeFrames, if_neg (by simpa using hr)]
  split
  · rename_i e' htake
    rw [h] at htake
    cases htake
    rfl
  · rename_i htake
    rw [h] at htake
    cases htake

lemma decodeFrames_frame (f : Frame) (rest output : Bytes) :
    decodeFrames handle (f.bytes ++ rest) output =
      match handle f.kind f.payload with
      | .error e => (.error e, output)
      | .ok data => decodeFrames handle rest (output ++ data) := by
  rw [decodeFrames, if_neg (by simp [f.bytes_ne_nil])]
  split
  · rename_i htake
    rw [takeBlock_bytes] at htake
    cases htake
  · rename_i htake
    rw [takeBlock_bytes] at htake
    cases htake
    rfl

lemma decodeFrames_cons {f : Frame} {d : Bytes} (h : Opens handle f d) (rest output : Bytes) :
    decodeFrames handle (f.bytes ++ rest) output = decodeFrames handle rest (output ++ d) := by
  rw [decodeFrames_frame, show handle f.kind f.payload = .ok d from h]

lemma decodeFrames_stream {fs : List Frame} {ds : List Bytes} (h : List.Forall₂ (Opens handle) fs ds)
    (rest output : Bytes) :
    decodeFrames handle (frameCode.stream fs ++ rest) output =
      decodeFrames handle rest (output ++ ds.flatten) := by
  induction h generalizing output with
  | nil => simp
  | cons hd _ ih =>
    rw [PrefixCode.stream_cons, frameCode_encode, List.append_assoc, decodeFrames_cons hd, ih,
      List.flatten_cons, List.append_assoc]

lemma decodeFrames_stream_ok {fs : List Frame} {ds : List Bytes}
    (h : List.Forall₂ (Opens handle) fs ds) (output : Bytes) :
    decodeFrames handle (frameCode.stream fs) output = (.ok (), output ++ ds.flatten) := by
  have hs := decodeFrames_stream h [] output
  rwa [List.append_nil, decodeFrames_nil] at hs

lemma decodeFrames_halts {r : Bytes} (hr : r ≠ [])
    (h : frameCode.Halts (fun f => ∃ d, Opens handle f d) r) :
    ∃ e, ∀ output, decodeFrames handle r output = (.error e, output) := by
  cases htake : takeBlock r with
  | error e => exact ⟨e, decodeFrames_untaken hr htake⟩
  | ok p =>
    obtain ⟨f, -, -, rfl⟩ := takeBlock_inv htake
    cases hf : handle f.kind f.payload with
    | ok d => exact absurd ⟨d, hf⟩ (h f p.2.2 (frameCode.take_encode f p.2.2))
    | error e =>
      refine ⟨e, fun output => ?_⟩
      rw [decodeFrames_frame, hf]

lemma exists_opened {fs : List Frame} (h : ∀ f ∈ fs, ∃ d, Opens handle f d) :
    ∃ ds, List.Forall₂ (Opens handle) fs ds := by
  induction fs with
  | nil => exact ⟨[], .nil⟩
  | cons f fs ih =>
    obtain ⟨d, hd⟩ := h f (by simp)
    obtain ⟨ds, hds⟩ := ih (fun g hg => h g (by simp [hg]))
    exact ⟨d :: ds, .cons hd hds⟩

lemma opened_unique {fs : List Frame} {ds es : List Bytes} (hd : List.Forall₂ (Opens handle) fs ds)
    (he : List.Forall₂ (Opens handle) fs es) : ds = es := by
  induction hd generalizing es with
  | nil =>
    cases he
    rfl
  | cons hf _ ih =>
    cases he with
    | cons hg hgs =>
      have hsame := Except.ok.inj (hf.symm.trans hg)
      rw [hsame, ih hgs]

/-- The loop reads the longest front of `w` made of frames that open, appends what they open
to, and succeeds when nothing is left. -/
theorem decodeFrames_spec (handle : BlockHandler) (w : Bytes) :
    ∃ fs ds r, w = frameCode.stream fs ++ r ∧ List.Forall₂ (Opens handle) fs ds ∧
      frameCode.Halts (fun f => ∃ d, Opens handle f d) r ∧
      (∀ output, (decodeFrames handle w output).2 = output ++ ds.flatten) ∧
      (∀ output, (decodeFrames handle w output).1 = .ok () ↔ r = []) := by
  obtain ⟨fs, r, rfl, hfs, hr⟩ := frameCode.exists_longest (fun f => ∃ d, Opens handle f d) w
  obtain ⟨ds, hds⟩ := exists_opened hfs
  refine ⟨fs, ds, r, rfl, hds, hr, ?_, ?_⟩
  · intro output
    rw [decodeFrames_stream hds]
    by_cases hnil : r = []
    · rw [hnil, decodeFrames_nil]
    · obtain ⟨e, he⟩ := decodeFrames_halts hnil hr
      rw [he]
  · intro output
    rw [decodeFrames_stream hds]
    by_cases hnil : r = []
    · simp [hnil]
    · obtain ⟨e, he⟩ := decodeFrames_halts hnil hr
      simp [he, hnil]

/-- What the loop returns and appends does not depend on what `output` held before. -/
theorem decodeFrames_output (w output : Bytes) :
    decodeFrames handle w output =
      ((decodeFrames handle w []).1, output ++ (decodeFrames handle w []).2) := by
  obtain ⟨fs, r, rfl, hfs, hr⟩ := frameCode.exists_longest (fun f => ∃ d, Opens handle f d) w
  obtain ⟨ds, hds⟩ := exists_opened hfs
  rw [decodeFrames_stream hds, decodeFrames_stream hds]
  by_cases hnil : r = []
  · simp [hnil]
  · obtain ⟨e, he⟩ := decodeFrames_halts hnil hr
    simp [he]

/-- Input decoded without error is a whole number of frames, so decoding may go on after it. -/
theorem decodeFrames_append {a : Bytes} {output output' : Bytes}
    (h : decodeFrames handle a output = (.ok (), output')) (b : Bytes) :
    decodeFrames handle (a ++ b) output = decodeFrames handle b output' := by
  obtain ⟨fs, ds, r, rfl, hds, -, hout, hok⟩ := decodeFrames_spec handle a
  obtain rfl : r = [] := (hok output).mp (by rw [h])
  have hout' : output' = output ++ ds.flatten := by
    rw [← hout output, h]
  rw [List.append_nil, decodeFrames_stream hds, hout']

/-- The loop accepts exactly the streams of frames that open. -/
theorem decodeFrames_ok_iff (w output : Bytes) :
    (decodeFrames handle w output).1 = .ok () ↔
      ∃ fs ds, w = frameCode.stream fs ∧ List.Forall₂ (Opens handle) fs ds := by
  constructor
  · intro h
    obtain ⟨fs, ds, r, rfl, hds, -, -, hok⟩ := decodeFrames_spec handle w
    obtain rfl := (hok output).mp h
    exact ⟨fs, ds, by simp, hds⟩
  · rintro ⟨fs, ds, rfl, hds⟩
    rw [decodeFrames_stream_ok hds]

end WpConnectorUtils.Codec
