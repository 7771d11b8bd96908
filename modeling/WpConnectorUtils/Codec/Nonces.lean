import Mathlib.Data.Set.Basic
import WpConnectorUtils.Codec.Conduct
import WpConnectorUtils.Codec.Losses
import WpConnectorUtils.Codec.Recording

/-!
# Nonces across encoders

Encoders draw from one random source. If the source never gives a nonce twice, no two sealed
frames carry the same nonce, on one wire or on several, however the calls to the encoders are
interleaved and whichever of them fail.
-/

namespace WpConnectorUtils.Codec

/-- No nonce that was issued is taken back. -/
def Grows {W : Type} (issued : W → Set Nonce) (w w' : W) : Prop := issued w ⊆ issued w'

instance {W : Type} (issued : W → Set Nonce) : IsPreorder W (Grows issued) where
  refl _ := subset_rfl
  trans _ _ _ := Set.Subset.trans

/-- `issued` collects the nonces the source has given: none of them is given again, and no call to
another crate takes one back. -/
structure Crates.FreshNonces (W : Type) [Crates W] (issued : W → Set Nonce) : Prop where
  keeps : Crates.Keeps (Grows issued)
  fresh : ∀ (w w' : W) nonce, randomFill w = (.ok nonce, w') → nonce ∉ issued w ∧ nonce ∈ issued w'

/-- Encoders in use in one world, each with its own output. -/
structure Pool (ι W : Type) where
  encoders : ι → LayeredEncoder W
  wires : ι → Bytes
  world : W

/-- A command is a call of one of the encoders, which runs to its end. -/
def pool (ι W : Type) [DecidableEq ι] [Crates W] :
    Machine (Pool ι W) (ι × Call) (Except CodecError Unit) where
  step command p :=
    let (o, w) := Encoder.call (p.encoders command.1) (p.wires command.1) p.world command.2
    (o.result, ⟨Function.update p.encoders command.1 o.self,
      Function.update p.wires command.1 o.output, w⟩)

lemma pool_step {ι W : Type} [DecidableEq ι] [Crates W] {i : ι} {call : Call} {p : Pool ι W}
    {o : Outcome (LayeredEncoder W)} {w : W}
    (h : Encoder.call (p.encoders i) (p.wires i) p.world call = (o, w)) :
    (pool ι W).step (i, call) p =
      (o.result, ⟨Function.update p.encoders i o.self, Function.update p.wires i o.output, w⟩) := by
  unfold pool
  dsimp only
  rw [h]

/-- The frame starts with the nonce. -/
def Bears (f : Frame) (nonce : Nonce) : Prop := ∃ sealed, f.payload = nonce.val ++ sealed

/-- The nonces that one frame bears. -/
lemma bears_single {f : Frame} {fs : List Frame} {nonces : List Nonce} {nonce : Nonce} {sealed : Bytes}
    (hwire : f.bytes = frameCode.stream fs) (hbears : List.Forall₂ Bears fs nonces)
    (hpayload : f.payload = nonce.val ++ sealed) : nonces = [nonce] := by
  have hfs : fs = [f] := by
    apply frameCode.stream_injective
    rw [← hwire]
    simp
  rw [hfs] at hbears
  cases hbears with
  | @cons _ nonce' _ _ hf hnil =>
    cases hnil
    obtain ⟨sealed', hsealed⟩ := hf
    rw [hpayload] at hsealed
    obtain ⟨hsame, -⟩ := List.append_inj hsealed (nonce.property.trans nonce'.property.symm)
    rw [Subtype.ext hsame]

variable {W : Type} [Crates W] {issued : W → Set Nonce}

/-! ### One call -/

section Calls

variable {call : Call} {w w' : W} {enc enc' : LayeredEncoder W} {result : Except CodecError Unit}
  {fs : List Frame} {R : W → W → Prop}

omit [Crates W] in
lemma BlockCompressor.PacksAll.keeps [IsPreorder W R] {c : BlockCompressor W} (hc : c.Keeps R)
    {blocks : List Bytes} (h : c.PacksAll w blocks fs w') : R w w' := by
  induction h with
  | nil w => exact refl_of R w
  | @cons w w₁ w₂ b bs f fs hf _ ih =>
    have hblock := hc b w
    rw [hf.2] at hblock
    exact trans_of R hblock ih

lemma AeadEncoder.Packs.draws (hfresh : Crates.FreshNonces W issued) {e : AeadEncoder W}
    (he : e.Keeps (Grows issued)) {input : Bytes} {f : Frame}
    (h : e.Packs w input f w') :
    ∃ nonce, Bears f nonce ∧ nonce ∉ issued w ∧ nonce ∈ issued w' := by
  obtain ⟨-, nonce, sealed, ⟨w₁, hdraw, hseal⟩, hpayload⟩ := h
  refine ⟨nonce, ⟨sealed, hpayload⟩, ?_⟩
  unfold newNonce at hdraw
  simp only [Prod.mk.injEq, Except.mapError_eq_ok] at hdraw
  obtain ⟨hnew, hissued⟩ := hfresh.fresh w w₁ nonce (Prod.ext hdraw.1 hdraw.2)
  have hworld := he.2 nonce [e.kind.toU8] input w₁
  rw [hseal] at hworld
  exact ⟨hnew, hworld hissued⟩

/-- A call of an encoder with encryption draws a new nonce for each frame it appends. -/
lemma LayeredEncoder.Step.draws (hfresh : Crates.FreshNonces W issued)
    (hkeeps : LayeredEncoder.Keeps (Grows issued) enc)
    (h : LayeredEncoder.Step call w enc result enc' fs w') (hsome : enc.encrypt.isSome) :
    ∃ nonces : List Nonce, List.Forall₂ Bears fs nonces ∧ nonces.Nodup ∧
      ∀ nonce ∈ nonces, nonce ∉ issued w ∧ nonce ∈ issued w' := by
  obtain ⟨hc, he⟩ := hkeeps
  cases h with
  | compressed | jammed => cases hsome
  | idle | refused | buffered | unwrapped | broken => exact ⟨[], .nil, .nil, by simp⟩
  | encrypted _ hf =>
    obtain ⟨nonce, hbears, hnew, hissued⟩ := hf.draws hfresh (he _ rfl)
    exact ⟨[nonce], .cons hbears .nil, List.nodup_singleton nonce, by simpa using ⟨hnew, hissued⟩⟩
  | wrapped hemits _ hg =>
    obtain ⟨nonce, hbears, hnew, hissued⟩ := hg.draws hfresh (he _ rfl)
    have hmid := hemits.packs.keeps (hc _ rfl)
    refine ⟨[nonce], .cons hbears .nil, List.nodup_singleton nonce, ?_⟩
    simpa using ⟨fun hold => hnew (hmid hold), hissued⟩

/-- Every call appends something that, with encryption, is frames with new nonces. -/
lemma call_draws (hfresh : Crates.FreshNonces W issued)
    (hkeeps : LayeredEncoder.Keeps (Grows issued) enc) (call : Call)
    (output : Bytes) (w : W) :
    ∃ (result : Except CodecError Unit) (enc' : LayeredEncoder W) (out : Bytes) (w' : W)
      (nonces : List Nonce),
      Encoder.call enc output w call = (⟨result, enc', output ++ out⟩, w') ∧
      LayeredEncoder.Keeps (Grows issued) enc' ∧
      enc'.encrypt.isSome = enc.encrypt.isSome ∧ nonces.Nodup ∧
      (∀ nonce ∈ nonces, nonce ∉ issued w ∧ nonce ∈ issued w') ∧
      (enc.encrypt.isSome → ∃ fs, out = frameCode.stream fs ∧ List.Forall₂ Bears fs nonces) := by
  by_cases hl : LayeredEncoder.Layered enc
  · obtain ⟨result, enc', fs, w', hstep, hcall⟩ := LayeredEncoder.call_step hl call w
    by_cases hsome : enc.encrypt.isSome
    · obtain ⟨nonces, hbears, hnodup, hnew⟩ := hstep.draws hfresh hkeeps hsome
      exact ⟨result, enc', _, w', nonces, hcall output, hstep.keeps hkeeps, hstep.shape.2, hnodup,
        hnew, fun _ => ⟨fs, rfl, hbears⟩⟩
    · exact ⟨result, enc', _, w', [], hcall output, hstep.keeps hkeeps, hstep.shape.2, .nil, by simp,
        fun h => absurd h hsome⟩
  · obtain rfl : enc = ⟨none, none⟩ := not_not.mp hl
    refine ⟨.ok (), ⟨none, none⟩, call.input, w, [], LayeredEncoder.call_plain call output w, hkeeps,
      rfl, .nil, by simp, ?_⟩
    intro hsome
    cases hsome

end Calls

/-! ### Runs -/

section Runs

variable {ι : Type} [DecidableEq ι]

/-- The nonces that encoder `i` has put on its wire, in order. -/
def noncesOf (log : List (ι × Nonce)) (i : ι) : List Nonce :=
  (log.filter (fun entry => entry.1 = i)).map Prod.snd

lemma noncesOf_append (log : List (ι × Nonce)) (nonces : List Nonce) (i j : ι) :
    noncesOf (log ++ nonces.map (fun nonce => (j, nonce))) i =
      if j = i then noncesOf log i ++ nonces else noncesOf log i := by
  unfold noncesOf
  rw [List.filter_append, List.map_append, List.filter_map, List.map_map]
  by_cases h : j = i
  · have hall : nonces.filter ((fun entry : ι × Nonce => decide (entry.1 = i)) ∘ (fun nonce => (j, nonce))) =
        nonces := List.filter_eq_self.mpr (by simp [h])
    rw [if_pos h, hall]
    simp [Function.comp_def]
  · have hnone : nonces.filter ((fun entry : ι × Nonce => decide (entry.1 = i)) ∘ (fun nonce => (j, nonce))) =
        [] := List.filter_eq_nil_iff.mpr (by simp [h])
    rw [if_neg h, hnone, List.map_nil, List.append_nil]

/-- `log` lists the nonces on the wires of `p`, with the encoders they are from, in the order in
which they were drawn. -/
structure Logged (issued : W → Set Nonce) (start p : Pool ι W) (log : List (ι × Nonce)) : Prop where
  keeps : ∀ i, LayeredEncoder.Keeps (Grows issued) (p.encoders i)
  shape : ∀ i, (p.encoders i).encrypt.isSome = (start.encoders i).encrypt.isSome
  distinct : (log.map Prod.snd).Nodup
  drawn : ∀ nonce ∈ log.map Prod.snd, nonce ∈ issued p.world
  wires : ∀ i, (start.encoders i).encrypt.isSome →
    ∃ fs, p.wires i = start.wires i ++ frameCode.stream fs ∧ List.Forall₂ Bears fs (noncesOf log i)

lemma Logged.step (hfresh : Crates.FreshNonces W issued) {start p : Pool ι W}
    {log : List (ι × Nonce)} (h : Logged issued start p log) (command : ι × Call) :
    ∃ log', Logged issued start ((pool ι W).step command p).2 log' := by
  obtain ⟨j, call⟩ := command
  have hworld := LayeredEncoder.call_keeps (h.keeps j) call (p.wires j) p.world
  obtain ⟨result, enc', out, w', nonces, hcall, hkeeps, hshape, hnodup, hnew, hout⟩ :=
    call_draws hfresh (h.keeps j) call (p.wires j) p.world
  rw [hcall] at hworld
  refine ⟨log ++ nonces.map (fun nonce => (j, nonce)), ?_⟩
  have hsnd : (log ++ nonces.map (fun nonce => (j, nonce))).map Prod.snd =
      log.map Prod.snd ++ nonces := by
    simp [Function.comp_def]
  change Logged issued start ⟨Function.update p.encoders j (Encoder.call _ _ _ call).1.self,
    Function.update p.wires j (Encoder.call _ _ _ call).1.output, (Encoder.call _ _ _ call).2⟩ _
  rw [hcall]
  constructor
  · intro i
    by_cases hij : i = j
    · subst hij
      simpa using hkeeps
    · simpa [hij] using h.keeps i
  · intro i
    by_cases hij : i = j
    · subst hij
      simpa [hshape] using h.shape i
    · simpa [hij] using h.shape i
  · rw [hsnd]
    refine h.distinct.append hnodup ?_
    intro nonce hlog hnonce
    exact (hnew nonce hnonce).1 (h.drawn nonce hlog)
  · rw [hsnd]
    intro nonce hmem
    rcases List.mem_append.mp hmem with hlog | hnonce
    · exact hworld (h.drawn nonce hlog)
    · exact (hnew nonce hnonce).2
  · intro i hsome
    obtain ⟨fs, hwire, hbears⟩ := h.wires i hsome
    rw [noncesOf_append]
    by_cases hij : j = i
    · subst hij
      obtain ⟨gs, hgs, hbears'⟩ := hout ((h.shape j).trans hsome)
      refine ⟨fs ++ gs, ?_, ?_⟩
      · simp [hwire, hgs]
      · rw [if_pos rfl]
        exact List.rel_append hbears hbears'
    · refine ⟨fs, ?_, ?_⟩
      · simpa [Ne.symm hij] using hwire
      · rw [if_neg hij]
        exact hbears

end Runs

/-- Encoders built in any way and called in any order, whichever calls fail: the nonces on the
wires of those with encryption, taken together in the order of the draws, are all different. -/
theorem nonces_never_repeat {ι : Type} [DecidableEq ι] (hfresh : Crates.FreshNonces W issued)
    (start : Pool ι W)
    (hbuilt : ∀ i, ∃ compression encryption, buildEncoder compression encryption = .ok (start.encoders i))
    (commands : List (ι × Call)) :
    let p := (pool ι W).run commands start
    ∃ log : List (ι × Nonce), (log.map Prod.snd).Nodup ∧
      ∀ i, (start.encoders i).encrypt.isSome → ∃ fs,
        p.wires i = start.wires i ++ frameCode.stream fs ∧ List.Forall₂ Bears fs (noncesOf log i) := by
  intro p
  have hstart : Logged issued start start [] := by
    refine ⟨?_, fun _ => rfl, .nil, by simp, fun i _ => ⟨[], by simp, .nil⟩⟩
    intro i
    obtain ⟨compression, encryption, hbuild⟩ := hbuilt i
    exact build_keeps hfresh.keeps hbuild
  have hstep : ∀ command p, (∃ log, Logged issued start p log) →
      ∃ log, Logged issued start ((pool ι W).step command p).2 log := by
    rintro command p ⟨log, h⟩
    exact h.step hfresh command
  obtain ⟨log, hlog⟩ := (pool ι W).run_invariant hstep commands ⟨[], hstart⟩
  exact ⟨log, hlog.distinct, hlog.wires⟩

/-! ### A sample: two encoders with one key -/

lemma Recorded.freshNonces (r : Recording) : Crates.FreshNonces (Recorded r) Recorded.issued where
  keeps := ⟨fun _ _ _ => subset_rfl, fun _ _ _ => subset_rfl, Recorded.issued_draw,
    fun _ _ _ _ _ => subset_rfl, fun _ _ _ _ _ => subset_rfl⟩
  fresh _ _ _ := Recorded.draw_fresh

namespace TwoTexts
open SampleWorld Recorded

def start : Pool Bool (Recorded recording) := ⟨fun _ => encoder recording key, fun _ => [], ⟨0⟩⟩

/-- A text for each encoder; the last call finds no nonce. -/
def commands : List (Bool × Call) :=
  [(true, .encode text), (false, .encode reply), (true, .finish), (false, .finish),
    (true, .encode text), (true, .finish)]

lemma pool_wires : let p := (pool Bool (Recorded recording)).run commands start
    p.wires true = sent.bytes ∧ p.wires false = sentReply.bytes := by
  intro p
  have hp : p = (pool Bool (Recorded recording)).run commands start := rfl
  unfold commands at hp
  rw [Machine.run_of_step (pool_step (LayeredEncoder.call_both_short _ _ _ _ _ (by decide)))] at hp
  rw [Machine.run_of_step (pool_step (LayeredEncoder.call_both_short _ _ _ _ _ (by decide)))] at hp
  rw [Machine.run_of_step (pool_step (call_finish sends_text (by decide) 0 0 []))] at hp
  rw [Machine.run_of_step (pool_step (call_finish sends_reply (by decide) 0 0 []))] at hp
  rw [Machine.run_of_step (pool_step (LayeredEncoder.call_both_short _ _ _ _ _ (by decide)))] at hp
  rw [hp]
  decide +kernel

end TwoTexts

open TwoTexts in
theorem nonces_never_repeat_sample :
    let p := (pool Bool (Recorded recording)).run commands start
    ∃ log : List (Bool × Nonce), (log.map Prod.snd).Nodup ∧
      noncesOf log true = [SampleWorld.nonce] ∧ noncesOf log false = [otherNonce] ∧
      ∀ i, ∃ fs, p.wires i = frameCode.stream fs ∧ List.Forall₂ Bears fs (noncesOf log i) := by
  intro p
  obtain ⟨log, hnodup, hlog⟩ := nonces_never_repeat (Recorded.freshNonces recording) start
    (fun _ => ⟨some {}, some ⟨.aes256Gcm, SampleWorld.key⟩, rfl⟩) commands
  have hwires : ∀ i, ∃ fs, p.wires i = frameCode.stream fs ∧
      List.Forall₂ Bears fs (noncesOf log i) := fun i => hlog i rfl
  obtain ⟨htrue, hfalse⟩ := pool_wires
  obtain ⟨fs, hfs, hbears⟩ := hwires true
  obtain ⟨gs, hgs, hbears'⟩ := hwires false
  exact ⟨log, hnodup, bears_single (htrue.symm.trans hfs) hbears rfl,
    bears_single (hfalse.symm.trans hgs) hbears' rfl, hwires⟩

end WpConnectorUtils.Codec
