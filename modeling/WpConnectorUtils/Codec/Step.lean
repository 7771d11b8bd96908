import WpConnectorUtils.Library.Machine
import WpConnectorUtils.Codec.Chain

/-!
# Steps of a layered encoder

A session is an encoder in use: its state, everything it has appended to the output, and
the world. `LayeredEncoder.Step` lists all that one call can do, failures included, and
`call_step` says that every call does one of these. Later files reason about `Step` only.
-/

namespace WpConnectorUtils.Codec

/-- A call of the `Encoder` trait. -/
inductive Call
  | encode (chunk : Bytes)
  | finish

/-- The plaintext that a call hands over. -/
def Call.input : Call → Bytes
  | .encode chunk => chunk
  | .finish => []

@[simp] lemma Call.input_finish : Call.finish.input = [] := rfl

/-- The bytes handed over by all calls, in order. -/
def plaintext (calls : List Call) : Bytes := (calls.map Call.input).flatten

lemma plaintext_append (calls calls' : List Call) :
    plaintext (calls ++ calls') = plaintext calls ++ plaintext calls' := by
  unfold plaintext
  rw [List.map_append, List.flatten_append]

def Encoder.call {σ W : Type} [Encoder σ W] (enc : σ) (output : Bytes) (w : W) : Call → Outcome σ × W
  | .encode chunk => Encoder.encode enc chunk output w
  | .finish => Encoder.finish enc output w

structure Session (σ W : Type) where
  encoder : σ
  wire : Bytes
  world : W

/-- Sessions as a machine: every call appends to the same output, whether it fails or not. -/
def sessions (σ W : Type) [Encoder σ W] : Machine (Session σ W) Call (Except CodecError Unit) where
  step call s :=
    let (o, w) := Encoder.call s.encoder s.wire s.world call
    (o.result, ⟨o.self, o.output, w⟩)

lemma sessions_step {σ W : Type} [Encoder σ W] {call : Call} {enc : σ} {wire : Bytes} {w w' : W}
    {o : Outcome σ} (h : Encoder.call enc wire w call = (o, w')) :
    (sessions σ W).step call ⟨enc, wire, w⟩ = (o.result, ⟨o.self, o.output, w'⟩) := by
  unfold sessions
  dsimp only
  rw [h]

/-- The reply of a call that returned `Ok`. -/
def Succeeded (result : Except CodecError Unit) : Prop := result = .ok ()

/-! ### The compressor -/

namespace BlockCompressor

variable {W : Type}

/-- The buffer and the input are `blocks`, which pack into `fs`, and `rest`, less than a block; for
`finish` the buffer is one block. -/
inductive Emits (c : BlockCompressor W) :
    Call → W → List Bytes → Bytes → List Frame → W → Prop
  | encode {chunk : Bytes} {w w' : W} {blocks : List Bytes} {rest : Bytes} {fs : List Frame} :
      c.Drains w (c.buffer ++ chunk) blocks rest fs w' → Emits c (.encode chunk) w blocks rest fs w'
  | finishEmpty {w : W} : c.buffer = [] → Emits c .finish w [] [] [] w
  | finish {w w' : W} {f : Frame} : c.buffer ≠ [] → c.Packs w c.buffer f w' →
      Emits c .finish w [c.buffer] [] [f] w'

/-- The buffer and the input are `blocks`, which pack into `fs`, the block `bad`, which is rejected,
and `rest`. -/
inductive Breaks (c : BlockCompressor W) :
    Call → W → List Bytes → Bytes → Bytes → List Frame → W → Prop
  | encode {chunk : Bytes} {w w' : W} {blocks : List Bytes} {bad rest : Bytes} {fs : List Frame} :
      c.Jams w (c.buffer ++ chunk) blocks bad rest fs w' →
      Breaks c (.encode chunk) w blocks bad rest fs w'
  | finish {w : W} : c.buffer ≠ [] → c.Rejects w c.buffer → Breaks c .finish w [] c.buffer [] [] w

variable {c : BlockCompressor W} {call : Call} {w w' : W} {blocks : List Bytes} {bad rest : Bytes}
  {fs : List Frame}

lemma Emits.split (h : c.Emits call w blocks rest fs w') :
    c.buffer ++ call.input = blocks.flatten ++ rest := by
  cases h with
  | encode h => exact h.split
  | finishEmpty h => simp [h]
  | finish => simp

lemma Emits.packs (h : c.Emits call w blocks rest fs w') : c.PacksAll w blocks fs w' := by
  cases h with
  | encode h => exact h.packs
  | finishEmpty => exact .nil w
  | finish _ h => exact .cons h (.nil _)

lemma Emits.rest_nil (h : c.Emits .finish w blocks rest fs w') : rest = [] := by
  cases h <;> rfl

lemma Breaks.split (h : c.Breaks call w blocks bad rest fs w') :
    c.buffer ++ call.input = blocks.flatten ++ (bad ++ rest) := by
  cases h with
  | encode h => exact h.split
  | finish => simp

lemma Breaks.packs (h : c.Breaks call w blocks bad rest fs w') : c.PacksAll w blocks fs w' := by
  cases h with
  | encode h => exact h.packs
  | finish => exact .nil w

lemma finish_eq (c : BlockCompressor W) (hne : c.buffer ≠ []) (output : Bytes) (w : W) :
    c.finish output w =
      (⟨(c.putCompressed c.buffer output w).1.1, c.hold [], (c.putCompressed c.buffer output w).1.2⟩,
        (c.putCompressed c.buffer output w).2) := by
  unfold finish
  rw [if_pos (by simpa using hne)]

theorem call_of_emits (h : c.Emits call w blocks rest fs w') (output : Bytes) :
    Encoder.call c output w call = (⟨.ok (), c.hold rest, output ++ frameCode.stream fs⟩, w') := by
  cases h with
  | encode h => exact flush_of_drains h output
  | finishEmpty h =>
    have hhold : c.hold [] = c := by rw [← h, hold_self]
    change c.finish output w = _
    unfold finish
    rw [if_neg (by simp [h]), hhold]
    simp
  | finish hne h =>
    change c.finish output w = _
    rw [finish_eq c hne, putCompressed_of_packs h]
    simp

theorem call_of_breaks (h : c.Breaks call w blocks bad rest fs w') : ∃ err w'', ∀ output,
    Encoder.call c output w call =
      (⟨.error err, c.hold rest, output ++ frameCode.stream fs⟩, w'') := by
  cases h with
  | encode h => exact flush_of_jams h
  | finish hne h =>
    obtain ⟨err, w'', he⟩ := putCompressed_of_rejects h
    refine ⟨err, w'', fun output => ?_⟩
    change c.finish output w = _
    rw [finish_eq c hne, he]
    simp

/-- Every call of the compressor succeeds or breaks at one block. -/
theorem emits_or_breaks (c : BlockCompressor W) (call : Call) (w : W) :
    (∃ blocks rest fs w', c.Emits call w blocks rest fs w') ∨
      ∃ blocks bad rest fs w', c.Breaks call w blocks bad rest fs w' := by
  cases call with
  | encode chunk =>
    rcases c.drains_or_jams w (c.buffer ++ chunk) with
      ⟨blocks, rest, fs, w', h⟩ | ⟨blocks, bad, rest, fs, w', h⟩
    · exact .inl ⟨blocks, rest, fs, w', .encode h⟩
    · exact .inr ⟨blocks, bad, rest, fs, w', .encode h⟩
  | finish =>
    by_cases hempty : c.buffer = []
    · exact .inl ⟨[], [], [], w, .finishEmpty hempty⟩
    by_cases hrej : c.Rejects w c.buffer
    · exact .inr ⟨[], c.buffer, [], [], w, .finish hempty hrej⟩
    · simp only [Rejects, not_forall, not_not] at hrej
      obtain ⟨f, w', hf⟩ := hrej
      exact .inl ⟨[c.buffer], [], [f], w', .finish hempty hf⟩

end BlockCompressor

/-! ### The layers together -/

namespace LayeredEncoder

variable {W : Type} [Crates W]

/-- All that one call of an encoder with at least one layer can do: its result, the encoder
it leaves, the frames it appends and the world after it. -/
inductive Step (call : Call) (w : W) : LayeredEncoder W → Except CodecError Unit →
    LayeredEncoder W → List Frame → W → Prop
  | compressed {c : BlockCompressor W} {blocks : List Bytes} {rest : Bytes} {fs : List Frame} {w' : W} :
      c.Emits call w blocks rest fs w' →
      Step call w ⟨some c, none⟩ (.ok ()) ⟨some (c.hold rest), none⟩ fs w'
  | jammed {c : BlockCompressor W} {blocks : List Bytes} {bad rest : Bytes} {fs : List Frame}
      {w' w'' : W} {err : CodecError} : c.Breaks call w blocks bad rest fs w' →
      Step call w ⟨some c, none⟩ (.error err) ⟨some (c.hold rest), none⟩ fs w''
  | idle {e : AeadEncoder W} : call.input = [] →
      Step call w ⟨none, some e⟩ (.ok ()) ⟨none, some e⟩ [] w
  | encrypted {e : AeadEncoder W} {f : Frame} {w' : W} : call.input ≠ [] →
      e.Packs w call.input f w' →
      Step call w ⟨none, some e⟩ (.ok ()) ⟨none, some (e.count call.input)⟩ [f] w'
  | refused {e : AeadEncoder W} {w' : W} {err : CodecError} : call.input ≠ [] →
      e.Rejects w call.input →
      Step call w ⟨none, some e⟩ (.error err) ⟨none, some e⟩ [] w'
  | buffered {c : BlockCompressor W} {e : AeadEncoder W} {rest : Bytes} {w' : W} :
      c.Emits call w [] rest [] w' →
      Step call w ⟨some c, some e⟩ (.ok ()) ⟨some (c.hold rest), some e⟩ [] w'
  | wrapped {c : BlockCompressor W} {e : AeadEncoder W} {blocks : List Bytes} {rest : Bytes}
      {fs : List Frame} {g : Frame} {w' w'' : W} : c.Emits call w blocks rest fs w' → fs ≠ [] →
      e.Packs w' (frameCode.stream fs) g w'' →
      Step call w ⟨some c, some e⟩ (.ok ())
        ⟨some (c.hold rest), some (e.count (frameCode.stream fs))⟩ [g] w''
  | unwrapped {c : BlockCompressor W} {e : AeadEncoder W} {blocks : List Bytes} {rest : Bytes}
      {fs : List Frame} {w' w'' : W} {err : CodecError} : c.Emits call w blocks rest fs w' → fs ≠ [] →
      e.Rejects w' (frameCode.stream fs) →
      Step call w ⟨some c, some e⟩ (.error err) ⟨some (c.hold rest), some e⟩ [] w''
  | broken {c : BlockCompressor W} {e : AeadEncoder W} {blocks : List Bytes} {bad rest : Bytes}
      {fs : List Frame} {w' w'' : W} {err : CodecError} : c.Breaks call w blocks bad rest fs w' →
      Step call w ⟨some c, some e⟩ (.error err) ⟨some (c.hold rest), some e⟩ [] w''

/-- An encoder with at least one layer. -/
def Layered (enc : LayeredEncoder W) : Prop := enc ≠ ⟨none, none⟩

lemma packs_or_rejects (e : AeadEncoder W) (w : W) (input : Bytes) :
    (∃ f w', e.Packs w input f w') ∨ e.Rejects w input := by
  by_cases h : ∃ f w', e.Packs w input f w'
  · exact .inl h
  · exact .inr (fun f w' hf => h ⟨f, w', hf⟩)

lemma call_compress_only (c : BlockCompressor W) (output : Bytes) (w : W) (call : Call) :
    Encoder.call (⟨some c, none⟩ : LayeredEncoder W) output w call =
      (⟨(Encoder.call c output w call).1.result, ⟨some (Encoder.call c output w call).1.self, none⟩,
        (Encoder.call c output w call).1.output⟩, (Encoder.call c output w call).2) := by
  cases call <;> rfl

lemma call_encrypt_only (e : AeadEncoder W) (output : Bytes) (w : W) (call : Call) :
    Encoder.call (⟨none, some e⟩ : LayeredEncoder W) output w call =
      (⟨(e.encode call.input output w).1.result, ⟨none, some (e.encode call.input output w).1.self⟩,
        (e.encode call.input output w).1.output⟩, (e.encode call.input output w).2) := by
  cases call <;> rfl

/-- The compressor's part of a call succeeded: what it emitted is sealed, if it is anything. -/
lemma call_both_of_ok {c c' : BlockCompressor W} {w w' : W} {call : Call} {mid : Bytes}
    (h : Encoder.call c [] w call = (⟨.ok (), c', mid⟩, w')) (e : AeadEncoder W) (output : Bytes) :
    Encoder.call (⟨some c, some e⟩ : LayeredEncoder W) output w call =
      (⟨(e.encode mid output w').1.result, ⟨some c', some (e.encode mid output w').1.self⟩,
        (e.encode mid output w').1.output⟩, (e.encode mid output w').2) := by
  cases call with
  | encode chunk =>
    change ChainEncoder.encode (⟨some c, some e⟩ : LayeredEncoder W) chunk output w = _
    change Encoder.encode c chunk [] w = _ at h
    unfold ChainEncoder.encode
    dsimp only
    rw [h]
    dsimp only
    split
    · rfl
    · rename_i hmid
      obtain rfl : mid = [] := by simpa using hmid
      rfl
  | finish =>
    change ChainEncoder.finish (⟨some c, some e⟩ : LayeredEncoder W) output w = _
    change Encoder.finish c [] w = _ at h
    unfold ChainEncoder.finish
    dsimp only
    rw [h]
    dsimp only
    split
    · rcases he : e.encode mid output w' with ⟨⟨result, e', out⟩, w''⟩
      have he' : Encoder.encode e mid output w' = (⟨result, e', out⟩, w'') := he
      rw [he']
      cases result <;> rfl
    · rename_i hmid
      obtain rfl : mid = [] := by simpa using hmid
      rfl

/-- A chunk that does not fill a block only goes into the buffer. -/
lemma call_both_short (c : BlockCompressor W) (e : AeadEncoder W) (chunk output : Bytes) (w : W)
    (h : (c.buffer ++ chunk).length < compressBlockSize) :
    Encoder.call (⟨some c, some e⟩ : LayeredEncoder W) output w (.encode chunk) =
      (⟨.ok (), ⟨some (c.hold (c.buffer ++ chunk)), some e⟩, output⟩, w) := by
  have hflush : Encoder.call c [] w (.encode chunk) = _ := BlockCompressor.flush_short h [] w
  exact call_both_of_ok hflush e output

/-- Finishing with a buffer that packs, and whose frame is sealed. -/
lemma call_both_finish {c : BlockCompressor W} {e : AeadEncoder W} {f g : Frame} {w w' w'' : W}
    (hne : c.buffer ≠ []) (hf : c.Packs w c.buffer f w') (hg : e.Packs w' f.bytes g w'')
    (output : Bytes) :
    Encoder.call (⟨some c, some e⟩ : LayeredEncoder W) output w .finish =
      (⟨.ok (), ⟨some (c.hold []), some (e.count f.bytes)⟩, output ++ g.bytes⟩, w'') := by
  have hfinish := BlockCompressor.call_of_emits (.finish hne hf) []
  rw [List.nil_append, PrefixCode.stream_cons, PrefixCode.stream_nil, List.append_nil,
    frameCode_encode] at hfinish
  rw [call_both_of_ok hfinish, AeadEncoder.encode_of_packs f.bytes_ne_nil hg]

lemma step_both_short (c : BlockCompressor W) (e : AeadEncoder W) (chunk wire : Bytes) (w : W)
    (h : (c.buffer ++ chunk).length < compressBlockSize) :
    (sessions (LayeredEncoder W) W).step (.encode chunk) ⟨⟨some c, some e⟩, wire, w⟩ =
      (.ok (), ⟨⟨some (c.hold (c.buffer ++ chunk)), some e⟩, wire, w⟩) :=
  sessions_step (call_both_short c e chunk wire w h)

lemma call_both_of_error {c c' : BlockCompressor W} {w w' : W} {call : Call} {mid : Bytes}
    {err : CodecError} (h : Encoder.call c [] w call = (⟨.error err, c', mid⟩, w'))
    (e : AeadEncoder W) (output : Bytes) :
    Encoder.call (⟨some c, some e⟩ : LayeredEncoder W) output w call =
      (⟨.error err, ⟨some c', some e⟩, output⟩, w') := by
  cases call with
  | encode chunk =>
    change ChainEncoder.encode (⟨some c, some e⟩ : LayeredEncoder W) chunk output w = _
    change Encoder.encode c chunk [] w = _ at h
    unfold ChainEncoder.encode
    dsimp only
    rw [h]
  | finish =>
    change ChainEncoder.finish (⟨some c, some e⟩ : LayeredEncoder W) output w = _
    change Encoder.finish c [] w = _ at h
    unfold ChainEncoder.finish
    dsimp only
    rw [h]

/-- Every call of an encoder with at least one layer is one of the listed steps, and appends
its frames to whatever `output` holds. -/
theorem call_step {enc : LayeredEncoder W} (hl : Layered enc) (call : Call) (w : W) :
    ∃ result enc' fs w', Step call w enc result enc' fs w' ∧ ∀ output,
      Encoder.call enc output w call = (⟨result, enc', output ++ frameCode.stream fs⟩, w') := by
  obtain ⟨compress, encrypt⟩ := enc
  cases compress with
  | none =>
    cases encrypt with
    | none => exact absurd rfl hl
    | some e =>
      by_cases hempty : call.input = []
      · refine ⟨_, _, _, _, .idle hempty, fun output => ?_⟩
        rw [call_encrypt_only, hempty, AeadEncoder.encode_nil]
        simp
      rcases packs_or_rejects e w call.input with ⟨f, w', hf⟩ | hrej
      · refine ⟨_, _, _, _, .encrypted hempty hf, fun output => ?_⟩
        rw [call_encrypt_only, AeadEncoder.encode_of_packs hempty hf]
        simp
      · obtain ⟨err, w', he⟩ := AeadEncoder.encode_of_rejects hempty hrej
        refine ⟨.error err, _, _, w', .refused hempty hrej, fun output => ?_⟩
        rw [call_encrypt_only, he]
        simp
  | some c =>
    cases encrypt with
    | none =>
      rcases c.emits_or_breaks call w with ⟨blocks, rest, fs, w', h⟩ | ⟨blocks, bad, rest, fs, w', h⟩
      · refine ⟨_, _, _, _, .compressed h, fun output => ?_⟩
        rw [call_compress_only, BlockCompressor.call_of_emits h]
      · obtain ⟨err, w'', he⟩ := BlockCompressor.call_of_breaks h
        refine ⟨.error err, _, _, w'', .jammed h, fun output => ?_⟩
        rw [call_compress_only, he]
    | some e =>
      rcases c.emits_or_breaks call w with ⟨blocks, rest, fs, w', h⟩ | ⟨blocks, bad, rest, fs, w', h⟩
      · have hcall := BlockCompressor.call_of_emits h []
        rw [List.nil_append] at hcall
        by_cases hfs : fs = []
        · subst hfs
          obtain rfl : blocks = [] := by cases h.packs; rfl
          refine ⟨_, _, _, _, .buffered h, fun output => ?_⟩
          rw [call_both_of_ok hcall, PrefixCode.stream_nil, AeadEncoder.encode_nil, List.append_nil]
        have hmid : frameCode.stream fs ≠ [] := fun h => hfs (frameCode.stream_eq_nil.mp h)
        rcases packs_or_rejects e w' (frameCode.stream fs) with ⟨g, w'', hg⟩ | hrej
        · refine ⟨_, _, _, _, .wrapped h hfs hg, fun output => ?_⟩
          rw [call_both_of_ok hcall, AeadEncoder.encode_of_packs hmid hg]
          simp
        · obtain ⟨err, w'', he⟩ := AeadEncoder.encode_of_rejects hmid hrej
          refine ⟨.error err, _, _, w'', .unwrapped h hfs hrej, fun output => ?_⟩
          rw [call_both_of_ok hcall, he]
          simp
      · obtain ⟨err, w'', he⟩ := BlockCompressor.call_of_breaks h
        refine ⟨.error err, _, _, w'', .broken h, fun output => ?_⟩
        rw [call_both_of_error (he [])]
        simp

end LayeredEncoder

lemma sample_accepted : (sessions (LayeredEncoder SampleWorld) SampleWorld).Accepts Succeeded
    [.encode SampleWorld.text, .finish, .encode [], .finish] ⟨sampleEncoder, [], ⟨true⟩⟩ := by
  refine Machine.accepts_of_step (LayeredEncoder.step_both_short _ _ _ _ _ (by decide)) rfl ?_
  refine Machine.accepts_of_step rfl rfl ?_
  refine Machine.accepts_of_step (LayeredEncoder.step_both_short _ _ _ _ _ (by decide)) rfl ?_
  exact ⟨rfl, trivial⟩

end WpConnectorUtils.Codec
