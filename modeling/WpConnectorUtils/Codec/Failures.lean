import WpConnectorUtils.Codec.Matching

/-!
# What a failing call loses

Blocks are taken out of the compressor's buffer before they are compressed, framed and sealed,
and are not put back when one of these fails. `Spares` says exactly when a call, whether it
fails or not, loses nothing that earlier calls accepted.
-/

namespace WpConnectorUtils.Codec

variable {W : Type}

/-- What a matching decoder recovers from the wire, followed by the pending bytes. -/
def held (dec : LayeredDecoder W) (s : Session (LayeredEncoder W) W) : Bytes :=
  (Decoder.decode dec s.wire []).output ++ LayeredEncoder.pending s.encoder

lemma held_of_empty (dec : LayeredDecoder W) (enc : LayeredEncoder W) (w : W) :
    held dec ⟨enc, [], w⟩ = LayeredEncoder.pending enc := by
  unfold held
  rw [decodes_nil dec []]
  rfl

variable [Crates W]

/-- The call keeps what was held; if it succeeds it adds exactly its input, and a `finish` leaves
an empty buffer. -/
structure KeepsHeld (dec : LayeredDecoder W) (call : Call) (s : Session (LayeredEncoder W) W) : Prop where
  kept : held dec s <+: held dec ((sessions (LayeredEncoder W) W).step call s).2
  added : Succeeded ((sessions (LayeredEncoder W) W).step call s).1 →
    held dec ((sessions (LayeredEncoder W) W).step call s).2 = held dec s ++ call.input
  flushed : call = .finish → Succeeded ((sessions (LayeredEncoder W) W).step call s).1 →
    LayeredEncoder.pending ((sessions (LayeredEncoder W) W).step call s).2.encoder = []

/-- Compression only: the buffered bytes from the first rejected block on stand again right behind
that block. Both layers: so do all the buffered bytes, and also when no block is rejected but the
frames of the blocks cannot be sealed. -/
def Spares (call : Call) (s : Session (LayeredEncoder W) W) : Prop :=
  match s.encoder.compress, s.encoder.encrypt with
  | none, _ => True
  | some c, none => ∀ blocks bad rest fs w', c.Breaks call s.world blocks bad rest fs w' →
      c.buffer.drop blocks.flatten.length <+: rest
  | some c, some e =>
    (∀ blocks bad rest fs w', c.Breaks call s.world blocks bad rest fs w' → c.buffer <+: rest) ∧
      ∀ blocks rest fs w', c.Emits call s.world blocks rest fs w' → fs ≠ [] →
        e.Rejects w' (frameCode.stream fs) → c.buffer <+: rest

/-! ### A call has one outcome -/

section Outcomes

variable {c : BlockCompressor W} {call : Call} {w w₁ w₂ : W} {blocks blocks' : List Bytes}
  {bad bad' rest rest' : Bytes} {fs fs' : List Frame}

omit [Crates W]

lemma BlockCompressor.Emits.not_breaks (h : c.Emits call w blocks rest fs w₁)
    (h' : c.Breaks call w blocks' bad rest' fs' w₂) : False := by
  obtain ⟨err, w'', he⟩ := BlockCompressor.call_of_breaks h'
  have hok := BlockCompressor.call_of_emits h []
  rw [he] at hok
  cases congrArg (fun p => p.1.result) hok

lemma BlockCompressor.Emits.unique (h : c.Emits call w blocks rest fs w₁)
    (h' : c.Emits call w blocks' rest' fs' w₂) : rest = rest' ∧ fs = fs' ∧ w₁ = w₂ := by
  have hcall := BlockCompressor.call_of_emits h []
  rw [BlockCompressor.call_of_emits h' []] at hcall
  have hrest : rest' = rest := congrArg (fun p => p.1.self.buffer) hcall
  have hwire : [] ++ frameCode.stream fs' = [] ++ frameCode.stream fs :=
    congrArg (fun p => p.1.output) hcall
  rw [List.nil_append, List.nil_append] at hwire
  exact ⟨hrest.symm, (frameCode.stream_injective hwire).symm, (congrArg Prod.snd hcall).symm⟩

lemma BlockCompressor.Breaks.length_bad (h : c.Breaks call w blocks bad rest fs w₁)
    (h' : c.Breaks call w blocks' bad' rest' fs' w₂) : bad.length = bad'.length := by
  cases h with
  | encode h =>
    cases h' with
    | encode h' => rw [h.bad_full, h'.bad_full]
  | finish =>
    cases h' with
    | finish => rfl

lemma BlockCompressor.Breaks.unique (h : c.Breaks call w blocks bad rest fs w₁)
    (h' : c.Breaks call w blocks' bad' rest' fs' w₂) :
    rest = rest' ∧ blocks.flatten.length = blocks'.flatten.length := by
  obtain ⟨err, w₃, he⟩ := BlockCompressor.call_of_breaks h
  obtain ⟨err', w₄, he'⟩ := BlockCompressor.call_of_breaks h'
  have hcall := he []
  rw [he' []] at hcall
  have hrest : rest' = rest := congrArg (fun p => p.1.self.buffer) hcall
  have hbad := h.length_bad h'
  have hlen := congrArg List.length (h.split.symm.trans h'.split)
  rw [hrest] at hlen
  simp only [List.length_append] at hlen
  exact ⟨hrest.symm, by omega⟩

/-- Without the bytes of the rejected block, the buffer is kept exactly if what it held from that
block on comes again behind it. -/
lemma BlockCompressor.Breaks.kept_iff (h : c.Breaks call w blocks bad rest fs w₁) :
    c.buffer <+: blocks.flatten ++ rest ↔ c.buffer.drop blocks.flatten.length <+: rest := by
  by_cases hle : c.buffer.length ≤ blocks.flatten.length
  · have hfront : c.buffer <+: blocks.flatten :=
      List.prefix_of_prefix_length_le ⟨call.input, h.split⟩ ⟨bad ++ rest, rfl⟩ hle
    rw [List.drop_eq_nil_of_le hle]
    exact ⟨fun _ => List.nil_prefix, fun _ => hfront.trans (List.prefix_append _ _)⟩
  · have hfront : blocks.flatten <+: c.buffer :=
      List.prefix_of_prefix_length_le ⟨bad ++ rest, h.split.symm⟩ ⟨call.input, rfl⟩ (by omega)
    obtain ⟨t, ht⟩ := hfront
    rw [← ht, List.drop_left, List.prefix_append_right_inj]

end Outcomes

/-! ### Steps -/

section Steps

variable {dec : LayeredDecoder W} {s : Session (LayeredEncoder W) W} {fs : List Frame}
  {ds : List Bytes}

lemma Carried.held_eq (h : Carried dec s fs ds) :
    held dec s = ds.flatten ++ LayeredEncoder.pending s.encoder := by
  unfold held
  rw [h.wire, decodes_stream h.carries]
  rfl

/-- A call that appends frames of the texts `es` keeps what was held exactly if these and the new
buffer start with the old buffer. -/
lemma Carried.kept_iff {s' : Session (LayeredEncoder W) W} {gs : List Frame} {es : List Bytes}
    (h : Carried dec s fs ds) (h' : Carried dec s' (fs ++ gs) (ds ++ es)) :
    held dec s <+: held dec s' ↔
      LayeredEncoder.pending s.encoder <+: es.flatten ++ LayeredEncoder.pending s'.encoder := by
  rw [h.held_eq, h'.held_eq, List.flatten_append, List.append_assoc, List.prefix_append_right_inj]

end Steps

/-! ### Calls -/

section Calls

variable {call : Call} {w w' : W} {enc enc' : LayeredEncoder W} {dec : LayeredDecoder W}
  {wire : Bytes} {result : Except CodecError Unit} {gs : List Frame}

lemma LayeredEncoder.Step.spares_of_ok (h : LayeredEncoder.Step call w enc result enc' gs w')
    (hok : Succeeded result) : Spares call ⟨enc, wire, w⟩ := by
  cases h with
  | compressed h =>
    intro blocks bad rest fs w' hb
    exact (h.not_breaks hb).elim
  | idle | encrypted => trivial
  | buffered h =>
    constructor
    · intro blocks bad rest fs w' hb
      exact (h.not_breaks hb).elim
    · intro blocks rest fs w' he hfs
      exact absurd (h.unique he).2.1.symm hfs
  | wrapped h _ hg =>
    constructor
    · intro blocks bad rest fs w' hb
      exact (h.not_breaks hb).elim
    · intro blocks' rest' fs' w' he _ hrej
      obtain ⟨-, rfl, rfl⟩ := h.unique he
      exact absurd hg (hrej _ _)
  | jammed | refused | unwrapped | broken => cases hok

/-- A failing call spares what was held exactly if the texts of its frames and the buffer it leaves
start with the buffer it found. -/
lemma LayeredEncoder.Step.spares_iff (h : LayeredEncoder.Step call w enc result enc' gs w')
    (herr : ¬Succeeded result) (hm : Matches enc dec) :
    ∃ es, List.Forall₂ (Carries dec) gs es ∧ (Spares call ⟨enc, wire, w⟩ ↔
      LayeredEncoder.pending enc <+: es.flatten ++ LayeredEncoder.pending enc') := by
  obtain ⟨decrypt, decompress⟩ := dec
  obtain ⟨hc, he⟩ := hm
  cases h with
  | @jammed c blocks bad rest fs w₁ w₂ err h =>
    cases hc with
    | some hc =>
      cases he
      refine ⟨blocks, carries_compressed (hc.opens_all h.packs), ?_⟩
      change _ ↔ c.buffer <+: blocks.flatten ++ rest
      rw [h.kept_iff]
      constructor
      · intro hs
        exact hs _ _ _ _ _ h
      · intro hkept blocks' bad' rest' fs' w' h'
        obtain ⟨hrest, hlen⟩ := h.unique h'
        rw [← hrest, ← hlen]
        exact hkept
  | refused =>
    refine ⟨[], .nil, fun _ => List.nil_prefix, fun _ => trivial⟩
  | @unwrapped c e blocks rest fs w₁ w₂ err h hfs hrej =>
    refine ⟨[], .nil, ?_⟩
    change _ ↔ c.buffer <+: rest
    constructor
    · intro hs
      exact hs.2 _ _ _ _ h hfs hrej
    · intro hkept
      refine ⟨fun _ _ _ _ _ hb => (h.not_breaks hb).elim, ?_⟩
      intro blocks' rest' fs' w' h' _ _
      rw [← (h.unique h').1]
      exact hkept
  | @broken c e blocks bad rest fs w₁ w₂ err h =>
    refine ⟨[], .nil, ?_⟩
    change _ ↔ c.buffer <+: rest
    constructor
    · intro hs
      exact hs.1 _ _ _ _ _ h
    · intro hkept
      refine ⟨?_, fun _ _ _ _ he => (he.not_breaks h).elim⟩
      intro blocks' bad' rest' fs' w' h'
      rw [← (h.unique h').1]
      exact hkept
  | compressed | idle | encrypted | buffered | wrapped => exact absurd rfl herr

end Calls

/-- A call keeps what was held exactly if it spares it. -/
theorem keepsHeld_iff_spares {dec : LayeredDecoder W} {s : Session (LayeredEncoder W) W}
    {fs : List Frame} {ds : List Bytes} (h : Carried dec s fs ds) (call : Call) :
    KeepsHeld dec call s ↔ Spares call s := by
  obtain ⟨enc, wire, w⟩ := s
  obtain ⟨result, enc', gs, w', hstep, hcall⟩ := LayeredEncoder.call_step h.layered call w
  have hnext := sessions_step (hcall wire)
  by_cases hok : Succeeded result
  · obtain ⟨es, hes, hmove⟩ := hstep.carries h.matching
    obtain ⟨hsplit, hflush⟩ := hmove hok
    have h' := h.extend hstep hes
    have hadded : held dec ⟨enc', wire ++ frameCode.stream gs, w'⟩ =
        held dec ⟨enc, wire, w⟩ ++ call.input := by
      rw [h.held_eq, h'.held_eq, List.flatten_append, List.append_assoc, ← hsplit, List.append_assoc]
    have hkeeps : KeepsHeld dec call ⟨enc, wire, w⟩ := by
      constructor <;> rw [hnext]
      · rw [hadded]
        exact List.prefix_append _ _
      · exact fun _ => hadded
      · exact fun hcall _ => hflush hcall
    exact ⟨fun _ => hstep.spares_of_ok hok, fun _ => hkeeps⟩
  · obtain ⟨es, hes, hspares⟩ := hstep.spares_iff hok h.matching
    rw [hspares, ← h.kept_iff (h.extend hstep hes)]
    constructor
    · intro hkeeps
      have hkept := hkeeps.kept
      rw [hnext] at hkept
      exact hkept
    · intro hkept
      constructor <;> rw [hnext]
      · exact hkept
      · exact fun h => absurd h hok
      · exact fun _ h => absurd h hok

/-- In every run, failing calls included, a call loses nothing that was accepted before it exactly
if it meets `Spares`, and a run whose calls all do loses nothing at all. -/
theorem held_kept_iff_spares (laws : Crates.RoundTrip W)
    {compression compression' : Option CompressConfig} {encryption : Option EncryptConfig}
    {enc : LayeredEncoder W} {dec : LayeredDecoder W}
    (hlayer : compression ≠ none ∨ encryption ≠ none)
    (halgo : compression'.map CompressConfig.algo = compression.map CompressConfig.algo)
    (henc : buildEncoder compression encryption = .ok enc)
    (hdec : buildDecoder compression' encryption = .ok dec) (calls : List Call) (w : W) :
    let s := (sessions (LayeredEncoder W) W).run calls ⟨enc, [], w⟩
    (∀ call, KeepsHeld dec call s ↔ Spares call s) ∧
      ∀ more, ((sessions (LayeredEncoder W) W).Along (KeepsHeld dec) more s ↔
          (sessions (LayeredEncoder W) W).Along Spares more s) ∧
        ((sessions (LayeredEncoder W) W).Along Spares more s →
          held dec s <+: held dec ((sessions (LayeredEncoder W) W).run more s)) := by
  have hm := build_matches laws halgo henc hdec
  have hl := build_layered hlayer henc
  intro s
  have hrun : ∃ fs ds, Carried dec s fs ds := carried_run ⟨[], [], carried_start hl hm w⟩ calls
  have hiff : ∀ s, (∃ fs ds, Carried dec s fs ds) → ∀ call, KeepsHeld dec call s ↔ Spares call s := by
    rintro s ⟨fs, ds, h⟩ call
    exact keepsHeld_iff_spares h call
  refine ⟨hiff s hrun, ?_⟩
  intro more
  refine ⟨⟨?_, ?_⟩, ?_⟩
  · exact Machine.along_mono _ carried_step (fun call s hs => (hiff s hs call).mp) more hrun
  · exact Machine.along_mono _ carried_step (fun call s hs => (hiff s hs call).mpr) more hrun
  · have hkept : ∀ call s, (∃ fs ds, Carried dec s fs ds) → Spares call s →
        held dec s <+: held dec ((sessions (LayeredEncoder W) W).step call s).2 := by
      intro call s hs hspares
      exact ((hiff s hs call).mpr hspares).kept
    exact Machine.run_related (R := fun s s' => held dec s <+: held dec s') _
      (fun _ => List.prefix_rfl) (fun _ _ _ => List.IsPrefix.trans) carried_step hkept more hrun

/-- A text that was sent stays when `encode` fails on a full block that the compressor refuses. -/
theorem held_kept_sample :
    let M := sessions (LayeredEncoder SampleWorld) SampleWorld
    let s := M.run [.encode SampleWorld.text, .finish] ⟨sampleEncoder, [], ⟨true⟩⟩
    let call := Call.encode (List.replicate compressBlockSize 0x61)
    held sampleDecoder s = SampleWorld.text ∧ ¬Succeeded (M.step call s).1 ∧ Spares call s ∧
      KeepsHeld sampleDecoder call s := by
  intro M s call
  let c : BlockCompressor SampleWorld := buildCompressor {}
  let e : AeadEncoder SampleWorld := ⟨ringAes256Gcm SampleWorld.key, .aes256Gcm, 0, 0⟩
  let f : Frame := ⟨.zstd, SampleWorld.zstdText, by decide⟩
  let g : Frame := ⟨.aes256Gcm, SampleWorld.nonce.val ++ SampleWorld.sealedFrame, by decide⟩
  have hs : s = ⟨⟨some c, some (e.count f.bytes)⟩, g.bytes, ⟨true⟩⟩ := by
    have hrun : s = M.run [.encode SampleWorld.text, .finish] ⟨⟨some c, some e⟩, [], ⟨true⟩⟩ := rfl
    rw [hrun, Machine.run_of_step (LayeredEncoder.step_both_short c e SampleWorld.text [] ⟨true⟩ (by decide))]
    rfl
  have hopen : Opens (⟨ringAes256Gcm SampleWorld.key, .aes256Gcm⟩ : AeadDecoder SampleWorld).handle g
      f.bytes := by
    unfold Opens
    decide +kernel
  have htext : Decodes sampleDecoder g.bytes SampleWorld.text :=
    decodes_both_iff.mpr ⟨f.bytes, decodeFrames_single hopen, decodeFrames_single rfl⟩
  have hspares : Spares call s := by
    rw [hs]
    exact ⟨fun _ _ _ _ _ _ => List.nil_prefix, fun _ _ _ _ _ _ _ => List.nil_prefix⟩
  have hkept := (@held_kept_iff_spares SampleWorld _ SampleWorld.roundTrip (some {}) (some {})
    (some ⟨.aes256Gcm, SampleWorld.key⟩) sampleEncoder sampleDecoder (.inl (by simp)) rfl rfl rfl
    [.encode SampleWorld.text, .finish] ⟨true⟩).1 call
  refine ⟨?_, ?_, hspares, hkept.mpr hspares⟩
  · unfold held
    rw [hs, htext]
    rfl
  · have hrejects : c.Rejects ⟨true⟩ (List.replicate compressBlockSize 0x61) := by
      rintro f w' ⟨-, hzip⟩
      have hother : List.replicate compressBlockSize 0x61 ≠ SampleWorld.text := by
        intro h
        have hlen := congrArg List.length h
        rw [List.length_replicate] at hlen
        cases hlen
      change ((if List.replicate compressBlockSize 0x61 = SampleWorld.text then _ else _ :
        Except String Bytes).mapError CodecError.compress, _) = _ at hzip
      rw [if_neg hother] at hzip
      cases congrArg Prod.fst hzip
    have hbreaks : c.Breaks call ⟨true⟩ [] (List.replicate compressBlockSize 0x61) [] [] ⟨true⟩ :=
      .encode ⟨by simp [c, buildCompressor], by simp, by simp, .nil _, hrejects⟩
    obtain ⟨err, w, hcall⟩ := BlockCompressor.call_of_breaks hbreaks
    have hboth := LayeredEncoder.call_both_of_error (hcall []) (e.count f.bytes) g.bytes
    rw [hs, sessions_step hboth]
    intro hok
    cases hok

/-- Both layers, the draw of a nonce fails in `finish`: the text that `encode` accepted is gone,
and the next `finish` succeeds with nothing on the wire. -/
theorem held_lost_sample :
    let M := sessions (LayeredEncoder SampleWorld) SampleWorld
    let s := M.run [.encode SampleWorld.text] ⟨sampleEncoder, [], ⟨false⟩⟩
    buildEncoder (some {}) (some ⟨.aes256Gcm, SampleWorld.key⟩) = .ok sampleEncoder ∧
      buildDecoder (some {}) (some ⟨.aes256Gcm, SampleWorld.key⟩) = .ok sampleDecoder ∧
      Succeeded (M.step (.encode SampleWorld.text) ⟨sampleEncoder, [], ⟨false⟩⟩).1 ∧
      ¬KeepsHeld sampleDecoder .finish s ∧
      Succeeded (M.step .finish (M.step .finish s).2).1 ∧ (M.step .finish (M.step .finish s).2).2.wire = [] := by
  have hencode := LayeredEncoder.step_both_short (buildCompressor {} : BlockCompressor SampleWorld)
    ⟨ringAes256Gcm SampleWorld.key, .aes256Gcm, 0, 0⟩ SampleWorld.text [] ⟨false⟩ (by decide)
  intro M s
  have hs : s = (M.step (.encode SampleWorld.text) ⟨sampleEncoder, [], ⟨false⟩⟩).2 := rfl
  change M.step (.encode SampleWorld.text) ⟨sampleEncoder, [], ⟨false⟩⟩ = _ at hencode
  rw [hencode] at hs
  rw [hs, hencode]
  refine ⟨rfl, rfl, rfl, ?_, rfl, rfl⟩
  intro hkeeps
  have hkept : held sampleDecoder ⟨_, [], ⟨false⟩⟩ <+: held sampleDecoder ⟨sampleEncoder, [], ⟨true⟩⟩ :=
    hkeeps.kept
  rw [held_of_empty, held_of_empty] at hkept
  exact absurd hkept (by decide)

end WpConnectorUtils.Codec
