import WpConnectorUtils.Codec.Matching
import WpConnectorUtils.Codec.Recording

/-!
# Two layers refine compression alone

The encoder with both layers and the one that only compresses take the same calls in lockstep,
each in its own world: one outer frame for every call that emits, and it opens to the inner
frames that the compressor alone emits for that call.
-/

namespace WpConnectorUtils.Codec

variable {W : Type}

/-- What compression answers depends on the block and the level only. -/
structure Crates.PureCompress (W : Type) [Crates W] : Prop where
  gz : ∀ b level (v w : W), (gzEncode b level v).1 = (gzEncode b level w).1
  zstd : ∀ b level (v w : W), (zstdCompress b level v).1 = (zstdCompress b level w).1

namespace BlockCompressor

/-- The compressor answers alike in all worlds. -/
def Pure (c : BlockCompressor W) : Prop :=
  ∀ block v w, (c.compress block c.level v).1 = (c.compress block c.level w).1

variable {c : BlockCompressor W} {call : Call} {v v' w : W} {blocks : List Bytes} {rest : Bytes}
  {fs : List Frame}

lemma Packs.transfer (hc : c.Pure) {block : Bytes} {f : Frame} (h : c.Packs v block f v') (w : W) :
    ∃ w', c.Packs w block f w' := by
  have hsame := hc block v w
  rw [h.2] at hsame
  exact ⟨(c.compress block c.level w).2, h.1, Prod.ext hsame.symm rfl⟩

lemma PacksAll.transfer (hc : c.Pure) (h : c.PacksAll v blocks fs v') (w : W) :
    ∃ w', c.PacksAll w blocks fs w' := by
  induction h generalizing w with
  | nil => exact ⟨w, .nil w⟩
  | cons hf _ ih =>
    obtain ⟨w₁, hf'⟩ := hf.transfer hc w
    obtain ⟨w₂, hfs'⟩ := ih w₁
    exact ⟨w₂, .cons hf' hfs'⟩

lemma Emits.transfer (hc : c.Pure) (h : c.Emits call v blocks rest fs v') (w : W) :
    ∃ w', c.Emits call w blocks rest fs w' := by
  cases h with
  | encode h =>
    obtain ⟨w', hpacks⟩ := h.packs.transfer hc w
    exact ⟨w', .encode ⟨h.split, h.full, h.short, hpacks⟩⟩
  | finishEmpty hempty => exact ⟨w, .finishEmpty hempty⟩
  | finish hne hf =>
    obtain ⟨w', hf'⟩ := hf.transfer hc w
    exact ⟨w', .finish hne hf'⟩

end BlockCompressor

/-- What one call appends to the two wires: nothing, or one outer frame that opens to the inner
frames. -/
def Wraps (a : AeadDecoder W) (outer inner : Bytes) : Prop :=
  (outer = [] ∧ inner = []) ∨ ∃ g fs, fs ≠ [] ∧ outer = g.bytes ∧ inner = frameCode.stream fs ∧
    Opens a.handle g inner

/-- The sessions have the same compressor, and each outer frame opens to whole inner frames, which
together are the other wire. -/
structure Refines (a : AeadDecoder W) (both only : Session (LayeredEncoder W) W) : Prop where
  encoders : ∃ c e, both.encoder = ⟨some c, some e⟩ ∧ only.encoder = ⟨some c, none⟩ ∧ c.Pure ∧
    AeadMatches e a
  wires : ∃ gs fss, both.wire = frameCode.stream gs ∧ only.wire = (fss.map frameCode.stream).flatten ∧
    List.Forall₂ (fun g fs => fs ≠ [] ∧ Opens a.handle g (frameCode.stream fs)) gs fss

section Steps

variable [Crates W] {a : AeadDecoder W} {call : Call} {w w' : W} {c : BlockCompressor W}
  {e : AeadEncoder W} {enc' : LayeredEncoder W} {result : Except CodecError Unit} {gs : List Frame}

/-- A successful call of the encoder with both layers succeeds without encryption as well. -/
lemma LayeredEncoder.Step.unwrap (h : LayeredEncoder.Step call w ⟨some c, some e⟩ result enc' gs w')
    (hok : Succeeded result) (hc : c.Pure) (he : AeadMatches e a) (v : W) :
    ∃ rest e' fs v', enc' = ⟨some (c.hold rest), some e'⟩ ∧ AeadMatches e' a ∧
      (∀ wire, Encoder.call (⟨some c, none⟩ : LayeredEncoder W) wire v call =
        (⟨.ok (), ⟨some (c.hold rest), none⟩, wire ++ frameCode.stream fs⟩, v')) ∧
      ((gs = [] ∧ fs = []) ∨ ∃ g, gs = [g] ∧ fs ≠ [] ∧ Opens a.handle g (frameCode.stream fs)) := by
  have halone : ∀ {blocks rest fs v'}, c.Emits call v blocks rest fs v' → ∀ wire,
      Encoder.call (⟨some c, none⟩ : LayeredEncoder W) wire v call =
        (⟨.ok (), ⟨some (c.hold rest), none⟩, wire ++ frameCode.stream fs⟩, v') := by
    intro blocks rest fs v' hemits wire
    rw [LayeredEncoder.call_compress_only, BlockCompressor.call_of_emits hemits]
  cases h with
  | buffered hemits =>
    obtain ⟨v', hemits'⟩ := hemits.transfer hc v
    exact ⟨_, e, [], v', rfl, he, halone hemits', .inl ⟨rfl, rfl⟩⟩
  | wrapped hemits hfs hg =>
    obtain ⟨v', hemits'⟩ := hemits.transfer hc v
    exact ⟨_, _, _, v', rfl, he.count _, halone hemits', .inr ⟨_, rfl, hfs, he.opens hg⟩⟩
  | unwrapped => cases hok
  | broken => cases hok

/-- One call in lockstep. -/
theorem Refines.step {both only : Session (LayeredEncoder W) W} (h : Refines a both only)
    (hok : Succeeded ((sessions (LayeredEncoder W) W).step call both).1) :
    Succeeded ((sessions (LayeredEncoder W) W).step call only).1 ∧
      Refines a ((sessions (LayeredEncoder W) W).step call both).2
        ((sessions (LayeredEncoder W) W).step call only).2 ∧
      ∃ outer inner, Wraps a outer inner ∧
        ((sessions (LayeredEncoder W) W).step call both).2.wire = both.wire ++ outer ∧
        ((sessions (LayeredEncoder W) W).step call only).2.wire = only.wire ++ inner := by
  obtain ⟨enc, wire, w⟩ := both
  obtain ⟨enc₁, wire₁, v⟩ := only
  obtain ⟨⟨c, e, rfl, rfl, hc, he⟩, gs, fss, hwire, hwire₁, hopens⟩ := h
  dsimp only at hwire hwire₁
  have hl : LayeredEncoder.Layered (⟨some c, some e⟩ : LayeredEncoder W) := by
    simp [LayeredEncoder.Layered]
  obtain ⟨result, enc', hs, w', hstep, hcall⟩ := LayeredEncoder.call_step hl call w
  rw [sessions_step (hcall wire)] at hok ⊢
  obtain ⟨rest, e', fs, v', rfl, he', halone, hemit⟩ := hstep.unwrap hok hc he v
  rw [sessions_step (halone wire₁)]
  have hencoders : ∃ c' e'', (⟨some (c.hold rest), some e'⟩ : LayeredEncoder W) = ⟨some c', some e''⟩ ∧
      (⟨some (c.hold rest), none⟩ : LayeredEncoder W) = ⟨some c', none⟩ ∧ c'.Pure ∧ AeadMatches e'' a :=
    ⟨_, _, rfl, rfl, hc, he'⟩
  refine ⟨rfl, ⟨hencoders, ?_⟩, frameCode.stream hs, frameCode.stream fs, ?_, rfl, rfl⟩
  · rcases hemit with ⟨rfl, rfl⟩ | ⟨g, rfl, hfs, hg⟩
    · exact ⟨gs, fss, by simp [hwire], by simp [hwire₁], hopens⟩
    · refine ⟨gs ++ [g], fss ++ [fs], ?_, ?_, List.rel_append hopens (.cons ⟨hfs, hg⟩ .nil)⟩
      · rw [hwire, frameCode.stream_append]
      · rw [hwire₁]
        simp
  · rcases hemit with ⟨rfl, rfl⟩ | ⟨g, rfl, hfs, hg⟩
    · exact .inl ⟨rfl, rfl⟩
    · exact .inr ⟨g, fs, hfs, by simp, rfl, hg⟩

end Steps

lemma build_pure [Crates W] (hpure : Crates.PureCompress W) (cfg : CompressConfig) :
    (buildCompressor cfg : BlockCompressor W).Pure := by
  obtain ⟨algo, level⟩ := cfg
  intro block v w
  cases algo with
  | gzip => exact congrArg (fun r => r.mapError CodecError.compress) (hpure.gz _ _ v w)
  | zstd => exact congrArg (fun r => r.mapError CodecError.compress) (hpure.zstd _ _ v w)

/-- When every call of the two-layer encoder succeeds, so does every call of the compressing one;
after every call the outer frames open, in order, to whole inner frames that are together the
other wire, and each call emits one outer frame or none as the other emits something or nothing. -/
theorem compress_then_encrypt_refines [Crates W] (hopen : Crates.OpenInverts W)
    (hpure : Crates.PureCompress W) {compression : CompressConfig} {encryption : EncryptConfig}
    {both only : LayeredEncoder W} {a : AeadDecoder W}
    (hboth : buildEncoder (some compression) (some encryption) = .ok both)
    (honly : buildEncoder (some compression) none = .ok only)
    (ha : buildDecryptor encryption = .ok a) (calls : List Call) (w v : W)
    (hok : (sessions (LayeredEncoder W) W).Accepts Succeeded calls ⟨both, [], w⟩) :
    let M := sessions (LayeredEncoder W) W
    let s := M.run calls ⟨both, [], w⟩
    let t := M.run calls ⟨only, [], v⟩
    M.Accepts Succeeded calls ⟨only, [], v⟩ ∧
    (∃ gs fss, s.wire = frameCode.stream gs ∧ t.wire = (fss.map frameCode.stream).flatten ∧
      List.Forall₂ (fun g fs => fs ≠ [] ∧ Opens a.handle g (frameCode.stream fs)) gs fss) ∧
    ∀ call, Succeeded (M.step call s).1 → ∃ outer inner, Wraps a outer inner ∧
      (M.step call s).2.wire = s.wire ++ outer ∧ (M.step call t).2.wire = t.wire ++ inner := by
  intro M s t
  obtain ⟨hc, he⟩ := buildEncoder_ok hboth
  obtain ⟨hc₁, he₁⟩ := buildEncoder_ok honly
  obtain ⟨compress, encrypt⟩ := both
  obtain ⟨compress₁, encrypt₁⟩ := only
  dsimp only [Option.map] at hc hc₁
  subst hc hc₁
  cases he₁
  cases he with
  | some he =>
    have hstart : Refines a ⟨⟨some (buildCompressor compression), some _⟩, [], w⟩
        ⟨⟨some (buildCompressor compression), none⟩, [], v⟩ :=
      ⟨⟨_, _, rfl, rfl, build_pure hpure compression, aead_matches hopen he ha⟩, [], [], rfl, rfl, .nil⟩
    have hstep : ∀ call s t, Refines a s t → Succeeded (M.step call s).1 →
        Succeeded (M.step call t).1 ∧ Refines a (M.step call s).2 (M.step call t).2 := by
      intro call s t h hok
      have h' := h.step hok
      exact ⟨h'.1, h'.2.1⟩
    obtain ⟨haccepts, hrun⟩ := Machine.lockstep M hstep calls hstart hok
    exact ⟨haccepts, hrun.wires, fun call hcall => (hrun.step hcall).2.2⟩

lemma Recorded.pureCompress (r : Recording) : Crates.PureCompress (Recorded r) where
  gz _ _ _ _ := rfl
  zstd _ _ _ _ := rfl

open TwoTexts in
/-- Two texts: what the outer frames of the one wire open to is the other wire. -/
theorem compress_then_encrypt_refines_sample :
    let M := sessions (LayeredEncoder (Recorded recording)) (Recorded recording)
    let a : AeadDecoder (Recorded recording) := ⟨ringAes256Gcm SampleWorld.key, .aes256Gcm⟩
    (M.run bothCalls ⟨Recorded.encoder recording SampleWorld.key, [], ⟨0⟩⟩).wire =
        frameCode.stream [sent, sentReply] ∧
      Opens a.handle sent textFrame.bytes ∧ Opens a.handle sentReply replyFrame.bytes ∧
      (M.run bothCalls ⟨⟨some (buildCompressor {}), none⟩, [], ⟨0⟩⟩).wire =
        frameCode.stream [textFrame, replyFrame] := by
  intro M a
  obtain ⟨hok, hrun⟩ := both_sent
  have hwire : (M.run bothCalls ⟨Recorded.encoder recording SampleWorld.key, [], ⟨0⟩⟩).wire =
      frameCode.stream [sent, sentReply] := (congrArg Session.wire hrun).trans rfl
  refine ⟨hwire, opens_sent, opens_sentReply, ?_⟩
  obtain ⟨gs, fss, houter, hinner, hopens⟩ := (@compress_then_encrypt_refines (Recorded recording) _
    Recorded.roundTrip.toOpenInverts (Recorded.pureCompress recording) {} ⟨.aes256Gcm, SampleWorld.key⟩
    (Recorded.encoder recording SampleWorld.key) ⟨some (buildCompressor {}), none⟩ a rfl rfl rfl
    bothCalls ⟨0⟩ ⟨0⟩ hok).2.1
  obtain rfl := frameCode.stream_injective (hwire.symm.trans houter)
  obtain ⟨inner, rest, ⟨-, hfirst⟩, hrest, rfl⟩ := List.forall₂_cons_left_iff.mp hopens
  obtain ⟨inner', rest', ⟨-, hsecond⟩, hnil, rfl⟩ := List.forall₂_cons_left_iff.mp hrest
  obtain rfl := List.forall₂_nil_left_iff.mp hnil
  have hsame : frameCode.stream inner = textFrame.bytes :=
    Except.ok.inj (hfirst.symm.trans opens_sent)
  have hsame' : frameCode.stream inner' = replyFrame.bytes :=
    Except.ok.inj (hsecond.symm.trans opens_sentReply)
  rw [hinner]
  simp [hsame, hsame']

end WpConnectorUtils.Codec
