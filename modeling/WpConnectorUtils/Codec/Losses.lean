import WpConnectorUtils.Codec.RoundTrip

/-!
# Where every byte goes

In a run with failing calls an encoder is a lossy channel. Each call takes bytes out of the
front of what is held; those of its frames reach the decoder, the others are lost, and a call
loses something exactly if it fails.
-/

namespace WpConnectorUtils.Codec

variable {W : Type}

/-- What an exchange says about the passage of the bytes. -/
structure Passes (compressing encrypting : Bool) (exchange : Call × Except CodecError Unit)
    (p : Channel.Passage UInt8) : Prop where
  data : p.data = exchange.1.input
  ok_iff : Succeeded exchange.2 ↔ p.lost = []
  /-- Only a compressor alone can have emitted frames in a call that fails, and only in `encode`. -/
  withheld : encrypting ∨ exchange.1 = .finish → p.lost ≠ [] → p.moved = []
  chunk : compressing = false → p.lost ≠ [] → p.lost = exchange.1.input
  blocks : compressing → exchange.1 ≠ .finish → p.lost ≠ [] → compressBlockSize ∣ p.lost.length ∧
    (encrypting = false → p.lost.length = compressBlockSize)

lemma dvd_length_flatten {n : Nat} {blocks : List Bytes} (h : ∀ b ∈ blocks, b.length = n) :
    n ∣ blocks.flatten.length := by
  rw [List.length_flatten]
  apply List.dvd_sum
  intro m hm
  obtain ⟨b, hb, rfl⟩ := List.mem_map.mp hm
  rw [h b hb]

namespace BlockCompressor

variable {c : BlockCompressor W} {call : Call} {w w' : W} {blocks : List Bytes} {bad rest : Bytes}
  {fs : List Frame}

lemma Emits.texts_ne_nil (h : c.Emits call w blocks rest fs w') (hfs : fs ≠ []) :
    blocks.flatten ≠ [] := by
  have hpos := compressBlockSize_pos
  cases h with
  | encode h =>
    cases hpacks : h.packs with
    | nil => exact absurd rfl hfs
    | @cons _ _ _ b =>
      have hb : b.length = compressBlockSize := h.full b (by simp)
      intro hnil
      have hlen := congrArg List.length hnil
      rw [List.flatten_cons, List.length_append, List.length_nil] at hlen
      omega
  | finishEmpty => exact absurd rfl hfs
  | finish hne =>
    rw [List.flatten_singleton]
    exact hne

lemma Emits.dvd_texts (h : c.Emits call w blocks rest fs w') (hcall : call ≠ .finish) :
    compressBlockSize ∣ blocks.flatten.length := by
  cases h with
  | encode h => exact dvd_length_flatten h.full
  | finishEmpty | finish => exact absurd rfl hcall

lemma Breaks.bad_ne_nil (h : c.Breaks call w blocks bad rest fs w') : bad ≠ [] := by
  have hpos := compressBlockSize_pos
  cases h with
  | encode h =>
    have hbad := h.bad_full
    rintro rfl
    rw [List.length_nil] at hbad
    omega
  | finish hne => exact hne

lemma Breaks.length_bad_of_encode (h : c.Breaks call w blocks bad rest fs w')
    (hcall : call ≠ .finish) :
    bad.length = compressBlockSize ∧ compressBlockSize ∣ blocks.flatten.length := by
  cases h with
  | encode h => exact ⟨h.bad_full, dvd_length_flatten h.full⟩
  | finish => exact absurd rfl hcall

lemma Breaks.finish_nil (h : c.Breaks .finish w blocks bad rest fs w') :
    blocks = [] ∧ rest = [] := by
  cases h
  exact ⟨rfl, rfl⟩

end BlockCompressor

/-! ### One call -/

namespace LayeredEncoder

variable [Crates W] {call : Call} {w w' : W} {enc enc' : LayeredEncoder W} {dec : LayeredDecoder W}
  {result : Except CodecError Unit} {fs : List Frame}

/-- A call keeps the layers. -/
lemma Step.shape (h : Step call w enc result enc' fs w') :
    enc'.compress.isSome = enc.compress.isSome ∧ enc'.encrypt.isSome = enc.encrypt.isSome := by
  cases h <;> exact ⟨rfl, rfl⟩

lemma passes_of_ok (compressing encrypting : Bool) (call : Call) (moved : Bytes) :
    Passes compressing encrypting (call, .ok ()) ⟨call.input, moved, []⟩ where
  data := rfl
  ok_iff := ⟨fun _ => rfl, fun _ => rfl⟩
  withheld _ h := absurd rfl h
  chunk _ h := absurd rfl h
  blocks _ _ h := absurd rfl h

/-- Every call is a passage: the front of the pending bytes and the input is taken out, and what
of it is not in the frames is lost. -/
theorem Step.passes (h : Step call w enc result enc' fs w') (hm : Matches enc dec) :
    ∃ p ds, List.Forall₂ (Carries dec) fs ds ∧ ds.flatten = p.moved ∧
      pending enc ++ p.data = p.taken ++ pending enc' ∧
      Passes enc.compress.isSome enc.encrypt.isSome (call, result) p := by
  by_cases hok : Succeeded result
  · obtain rfl := hok
    obtain ⟨ds, hds, hmove⟩ := h.carries hm
    refine ⟨⟨call.input, ds.flatten, []⟩, ds, hds, rfl, ?_, passes_of_ok _ _ _ _⟩
    rw [Channel.Passage.taken, List.append_nil]
    exact (hmove rfl).1
  obtain ⟨decrypt, decompress⟩ := dec
  obtain ⟨hc, he⟩ := hm
  cases h with
  | compressed | idle | encrypted | buffered | wrapped => exact absurd rfl hok
  | @jammed c blocks bad rest fs w₁ w₂ err h =>
    cases hc with
    | some hc =>
      cases he
      refine ⟨⟨call.input, blocks.flatten, bad⟩, blocks, carries_compressed (hc.opens_all h.packs),
        rfl, ?_, rfl, ?_, ?_, ?_, ?_⟩
      · rw [Channel.Passage.taken, List.append_assoc]
        exact h.split
      · exact ⟨fun hr => absurd hr hok, fun hbad => absurd hbad h.bad_ne_nil⟩
      · rintro (hencrypt | rfl) -
        · cases hencrypt
        · rw [h.finish_nil.1]
          rfl
      · intro hcompress
        cases hcompress
      · intro _ hcall _
        obtain ⟨hbad, -⟩ := h.length_bad_of_encode hcall
        exact ⟨dvd_of_eq hbad.symm, fun _ => hbad⟩
  | refused hne =>
    refine ⟨⟨call.input, [], call.input⟩, [], .nil, rfl, by simp [pending, Channel.Passage.taken],
      rfl, ?_, fun _ _ => rfl, fun _ _ => rfl, ?_⟩
    · exact ⟨fun hr => absurd hr hok, fun hlost => absurd hlost hne⟩
    · intro hcompress
      cases hcompress
  | @unwrapped c e blocks rest fs w₁ w₂ err h hfs =>
    refine ⟨⟨call.input, [], blocks.flatten⟩, [], .nil, rfl, h.split, rfl, ?_, fun _ _ => rfl, ?_, ?_⟩
    · exact ⟨fun hr => absurd hr hok, fun hlost => absurd hlost (h.texts_ne_nil hfs)⟩
    · intro hcompress
      cases hcompress
    · intro _ hcall _
      refine ⟨h.dvd_texts hcall, ?_⟩
      intro hencrypt
      cases hencrypt
  | @broken c e blocks bad rest fs w₁ w₂ err h =>
    refine ⟨⟨call.input, [], blocks.flatten ++ bad⟩, [], .nil, rfl, ?_, rfl, ?_, fun _ _ => rfl, ?_, ?_⟩
    · rw [Channel.Passage.taken, List.nil_append, List.append_assoc]
      exact h.split
    · refine ⟨fun hr => absurd hr hok, fun hlost => ?_⟩
      exact absurd (List.append_eq_nil_iff.mp hlost).2 h.bad_ne_nil
    · intro hcompress
      cases hcompress
    · intro _ hcall _
      obtain ⟨hbad, hblocks⟩ := h.length_bad_of_encode hcall
      refine ⟨?_, ?_⟩
      · change compressBlockSize ∣ (blocks.flatten ++ bad).length
        rw [List.length_append]
        exact Nat.dvd_add hblocks (dvd_of_eq hbad.symm)
      · intro hencrypt
        cases hencrypt

lemma Step.finish_drains (h : Step .finish w enc result enc' fs w') : pending enc' = [] := by
  cases h with
  | compressed h => exact h.rest_nil
  | buffered h => exact h.rest_nil
  | wrapped h => exact h.rest_nil
  | unwrapped h => exact h.rest_nil
  | jammed h => exact h.finish_nil.2
  | broken h => exact h.finish_nil.2
  | idle | encrypted | refused => rfl

end LayeredEncoder

/-! ### Runs -/

/-- The session stands for the lossy channel and has the given layers. -/
structure Lossy (dec : LayeredDecoder W) (compressing encrypting : Bool)
    (s : Session (LayeredEncoder W) W) (ch : Channel UInt8) : Prop where
  realizes : Realizes dec s ch
  compress : s.encoder.compress.isSome = compressing
  encrypt : s.encoder.encrypt.isSome = encrypting

section Runs

variable [Crates W]

lemma LayeredEncoder.call_plain (call : Call) (output : Bytes) (w : W) :
    Encoder.call (⟨none, none⟩ : LayeredEncoder W) output w call =
      (⟨.ok (), ⟨none, none⟩, output ++ call.input⟩, w) := by
  cases call with
  | encode chunk => rfl
  | finish =>
    rw [Call.input_finish, List.append_nil]
    rfl

/-- Every call, wherever its output stands, is a passage. -/
lemma LayeredEncoder.call_passes {enc : LayeredEncoder W} {dec : LayeredDecoder W}
    (hm : Matches enc dec) (call : Call) {output text : Bytes} (hdel : Decodes dec output text)
    (w : W) :
    ∃ (p : Channel.Passage UInt8) (result : Except CodecError Unit) (enc' : LayeredEncoder W)
      (output' : Bytes) (w' : W),
      Encoder.call enc output w call = (⟨result, enc', output'⟩, w') ∧
      Passes enc.compress.isSome enc.encrypt.isSome (call, result) p ∧
      LayeredEncoder.pending enc ++ p.data = p.taken ++ LayeredEncoder.pending enc' ∧
      Decodes dec output' (text ++ p.moved) ∧ Matches enc' dec ∧
      enc'.compress.isSome = enc.compress.isSome ∧ enc'.encrypt.isSome = enc.encrypt.isSome := by
  by_cases hl : LayeredEncoder.Layered enc
  · obtain ⟨result, enc', fs, w', hstep, hcall⟩ := LayeredEncoder.call_step hl call w
    obtain ⟨p, ds, hds, hmoved, hsplit, hpasses⟩ := hstep.passes hm
    refine ⟨p, result, enc', _, w', hcall output, hpasses, hsplit, ?_, hstep.matches hm, hstep.shape⟩
    rw [← hmoved]
    exact hdel.append (decodes_stream hds)
  · obtain rfl : enc = ⟨none, none⟩ := not_not.mp hl
    obtain rfl := hm.plain
    refine ⟨⟨call.input, call.input, []⟩, .ok (), ⟨none, none⟩, output ++ call.input, w,
      LayeredEncoder.call_plain call output w, LayeredEncoder.passes_of_ok _ _ _ _, ?_,
      hdel.append (decodes_plain_iff.mpr rfl), hm, rfl, rfl⟩
    simp [LayeredEncoder.pending, Channel.Passage.taken]

lemma Lossy.step {dec : LayeredDecoder W} {compressing encrypting : Bool}
    {s : Session (LayeredEncoder W) W} {ch : Channel UInt8}
    (h : Lossy dec compressing encrypting s ch) (call : Call) :
    ∃ p ch', Passes compressing encrypting (call, ((sessions (LayeredEncoder W) W).step call s).1) p ∧
      Channel.Passage.Step p ch ch' ∧
      Lossy dec compressing encrypting ((sessions (LayeredEncoder W) W).step call s).2 ch' := by
  obtain ⟨enc, wire, w⟩ := s
  obtain ⟨⟨hm, hdel, hpend⟩, rfl, rfl⟩ := h
  dsimp only at hm hdel hpend
  obtain ⟨p, result, enc', wire', w', hcall, hpasses, hsplit, hdel', hm', hcompress, hencrypt⟩ :=
    LayeredEncoder.call_passes hm call hdel w
  rw [sessions_step hcall]
  refine ⟨p, ⟨ch.delivered ++ p.moved, LayeredEncoder.pending enc'⟩, hpasses, ⟨rfl, ?_⟩,
    ⟨hm', hdel', rfl⟩, hcompress, hencrypt⟩
  rw [← hpend]
  exact hsplit

/-- A `finish` leaves nothing pending, whether it fails or not. -/
lemma pending_finish (s : Session (LayeredEncoder W) W) :
    LayeredEncoder.pending ((sessions (LayeredEncoder W) W).step .finish s).2.encoder = [] := by
  obtain ⟨enc, wire, w⟩ := s
  by_cases hl : LayeredEncoder.Layered enc
  · obtain ⟨result, enc', fs, w', hstep, hcall⟩ := LayeredEncoder.call_step hl .finish w
    rw [sessions_step (hcall wire)]
    exact hstep.finish_drains
  · obtain rfl : enc = ⟨none, none⟩ := not_not.mp hl
    rw [sessions_step (LayeredEncoder.call_plain .finish wire w)]
    rfl

/-- If all that was handed over is what was taken and what is pending, a `finish` takes all that is
pending. -/
lemma taken_of_finish {calls : List Call} {s : Session (LayeredEncoder W) W}
    {ps : List (Channel.Passage UInt8)} (hsplit : ∀ k, plaintext (calls.take k) =
      ((ps.take k).map Channel.Passage.taken).flatten ++
        LayeredEncoder.pending ((sessions (LayeredEncoder W) W).run (calls.take k) s).encoder) {k : Nat}
    {p : Channel.Passage UInt8} (hcall : calls[k]? = some .finish) (hp : ps[k]? = some p) :
    p.taken = LayeredEncoder.pending ((sessions (LayeredEncoder W) W).run (calls.take k) s).encoder := by
  have hbefore := hsplit k
  have hafter := hsplit (k + 1)
  have hdrained := pending_finish ((sessions (LayeredEncoder W) W).run (calls.take k) s)
  rw [List.take_add_one, List.take_add_one, hcall, hp, Machine.run_append] at hafter
  change _ = _ ++ LayeredEncoder.pending ((sessions (LayeredEncoder W) W).step .finish _).2.encoder
    at hafter
  rw [hdrained, plaintext_append, hbefore] at hafter
  simpa [plaintext] using hafter.symm

lemma build_shape {compression : Option CompressConfig} {encryption : Option EncryptConfig}
    {enc : LayeredEncoder W} (henc : buildEncoder compression encryption = .ok enc) :
    enc.compress.isSome = compression.isSome ∧ enc.encrypt.isSome = encryption.isSome := by
  obtain ⟨hc, he⟩ := buildEncoder_ok henc
  constructor
  · rw [hc]
    cases compression <;> rfl
  · generalize enc.encrypt = encrypt at he
    cases he <;> rfl

/-- The data of the passages are the inputs of the calls. -/
lemma data_of_passes {compressing encrypting : Bool} {calls : List Call}
    {s : Session (LayeredEncoder W) W} {ps : List (Channel.Passage UInt8)}
    (h : List.Forall₂ (Passes compressing encrypting) ((sessions (LayeredEncoder W) W).exchanges calls s)
      ps) (k : Nat) :
    ((ps.take k).map Channel.Passage.data).flatten = plaintext (calls.take k) := by
  induction calls generalizing s ps k with
  | nil =>
    cases h
    simp [plaintext]
  | cons call calls ih =>
    cases h with
    | cons hp hps =>
      cases k with
      | zero => rfl
      | succ k =>
        simp only [List.take_succ_cons, List.map_cons, List.flatten_cons]
        rw [ih hps, hp.data]
        rfl

/-- What `every_byte_accounted` says, for an encoder with nothing pending and a decoder that matches
it. -/
lemma passages_of_run {enc : LayeredEncoder W} {dec : LayeredDecoder W} (hm : Matches enc dec)
    (hempty : LayeredEncoder.pending enc = []) (calls : List Call) (w : W) :
    ∃ ps : List (Channel.Passage UInt8),
      List.Forall₂ (Passes enc.compress.isSome enc.encrypt.isSome)
        ((sessions (LayeredEncoder W) W).exchanges calls ⟨enc, [], w⟩) ps ∧
      ∀ k, let s := (sessions (LayeredEncoder W) W).run (calls.take k) ⟨enc, [], w⟩
        plaintext (calls.take k) = ((ps.take k).map Channel.Passage.taken).flatten ++
          LayeredEncoder.pending s.encoder ∧
        Decodes dec s.wire ((ps.take k).map Channel.Passage.moved).flatten ∧
        (((ps.take k).map Channel.Passage.moved).flatten).Sublist (plaintext (calls.take k)) := by
  have hstart : Lossy dec enc.compress.isSome enc.encrypt.isSome ⟨enc, [], w⟩ ⟨[], []⟩ :=
    ⟨⟨hm, decodes_nil dec, hempty⟩, rfl, rfl⟩
  obtain ⟨ps, hps, hruns⟩ := (sessions (LayeredEncoder W) W).simulation_labelled
    (R := Lossy dec enc.compress.isSome enc.encrypt.isSome) (fun call _ _ h => h.step call) calls hstart
  refine ⟨ps, hps, fun k => ?_⟩
  obtain ⟨ch, hrun, hch⟩ := hruns k
  obtain ⟨hdel, hsplit⟩ := Channel.conserved_of_run hrun
  rw [List.nil_append, data_of_passes hps] at hsplit
  rw [List.nil_append] at hdel
  intro s
  refine ⟨?_, ?_, ?_⟩
  · rw [hch.realizes.pending, hsplit]
  · rw [← hdel]
    exact hch.realizes.delivered
  · rw [hsplit]
    exact (Channel.moved_sublist_taken _).trans (List.sublist_append_left _ _)

/-- A `finish` that fails moves nothing. -/
lemma moved_of_finish {compressing encrypting : Bool} {calls : List Call}
    {s : Session (LayeredEncoder W) W} {ps : List (Channel.Passage UInt8)}
    (hps : List.Forall₂ (Passes compressing encrypting)
      ((sessions (LayeredEncoder W) W).exchanges calls s) ps) {k : Nat} {p : Channel.Passage UInt8}
    (hcall : calls[k]? = some .finish) (hp : ps[k]? = some p) (hlost : p.lost ≠ []) :
    p.moved = [] := by
  obtain ⟨hk, rfl⟩ := List.getElem?_eq_some_iff.mp hp
  have hk' := hps.length_eq ▸ hk
  have hpasses := (List.forall₂_iff_get.mp hps).2 k hk' hk
  apply hpasses.withheld (.inr _) hlost
  rw [← Machine.map_fst_exchanges (sessions (LayeredEncoder W) W) calls s, List.getElem?_map,
    List.getElem?_eq_getElem hk'] at hcall
  exact Option.some.inj hcall

end Runs

/-- In every run, failing calls included, and after each of its calls: what was handed over is what
has left the encoder, in order, and what is pending; what has left is on the wire, where it
decodes, or was lost by the call that took it, and a call loses something exactly if it fails. A
`finish` takes all that is pending, and loses all of it if it fails. Nothing is duplicated or
reordered. -/
theorem every_byte_accounted [Crates W] (laws : Crates.RoundTrip W)
    {compression compression' : Option CompressConfig} {encryption : Option EncryptConfig}
    {enc : LayeredEncoder W} {dec : LayeredDecoder W}
    (halgo : compression'.map CompressConfig.algo = compression.map CompressConfig.algo)
    (henc : buildEncoder compression encryption = .ok enc)
    (hdec : buildDecoder compression' encryption = .ok dec) (calls : List Call) (w : W) :
    let M := sessions (LayeredEncoder W) W
    ∃ ps : List (Channel.Passage UInt8),
      List.Forall₂ (Passes compression.isSome encryption.isSome) (M.exchanges calls ⟨enc, [], w⟩) ps ∧
      ∀ k, let s := M.run (calls.take k) ⟨enc, [], w⟩
        plaintext (calls.take k) = ((ps.take k).map Channel.Passage.taken).flatten ++
          LayeredEncoder.pending s.encoder ∧
        Decodes dec s.wire ((ps.take k).map Channel.Passage.moved).flatten ∧
        (((ps.take k).map Channel.Passage.moved).flatten).Sublist (plaintext (calls.take k)) ∧
        ∀ p ∈ ps[k]?, calls[k]? = some .finish → p.taken = LayeredEncoder.pending s.encoder ∧
          (p.lost ≠ [] → p.lost = LayeredEncoder.pending s.encoder) := by
  intro M
  obtain ⟨hcompress, hencrypt⟩ := build_shape henc
  rw [← hcompress, ← hencrypt]
  obtain ⟨ps, hps, hruns⟩ :=
    passages_of_run (build_matches laws halgo henc hdec) (build_pending henc) calls w
  refine ⟨ps, hps, fun k => ?_⟩
  obtain ⟨hsplit, hdecodes, hsublist⟩ := hruns k
  refine ⟨hsplit, hdecodes, hsublist, ?_⟩
  intro p hp hcall
  have htaken := taken_of_finish (fun k => (hruns k).1) hcall hp
  refine ⟨htaken, ?_⟩
  intro hlost
  rw [← htaken, Channel.Passage.taken, moved_of_finish hps hcall hp hlost, List.nil_append]

theorem every_byte_accounted_sample :
    let M := sessions (LayeredEncoder SampleWorld) SampleWorld
    let calls : List Call := [.encode SampleWorld.text, .finish, .encode SampleWorld.text, .finish]
    ∃ ps : List (Channel.Passage UInt8),
      List.Forall₂ (Passes true true) (M.exchanges calls ⟨sampleEncoder, [], ⟨false⟩⟩) ps ∧
      ∀ k, let s := M.run (calls.take k) ⟨sampleEncoder, [], ⟨false⟩⟩
        plaintext (calls.take k) = ((ps.take k).map Channel.Passage.taken).flatten ++
          LayeredEncoder.pending s.encoder ∧
        Decodes sampleDecoder s.wire ((ps.take k).map Channel.Passage.moved).flatten ∧
        (((ps.take k).map Channel.Passage.moved).flatten).Sublist (plaintext (calls.take k)) ∧
        ∀ p ∈ ps[k]?, calls[k]? = some .finish → p.taken = LayeredEncoder.pending s.encoder ∧
          (p.lost ≠ [] → p.lost = LayeredEncoder.pending s.encoder) :=
  @every_byte_accounted SampleWorld _ SampleWorld.roundTrip (some {}) (some { level := 19 })
    (some ⟨.aes256Gcm, SampleWorld.key⟩) sampleEncoder sampleDecoder rfl rfl rfl
    [.encode SampleWorld.text, .finish, .encode SampleWorld.text, .finish] ⟨false⟩

/-! ### Backlog

A jammed compressor may hold any number of full blocks. Its buffer shrinks by whole blocks with
every call that fails without input. -/

section Backlog

variable [Crates W] {call : Call} {w w' : W} {enc enc' : LayeredEncoder W}
  {result : Except CodecError Unit} {fs : List Frame}

omit [Crates W] in
lemma BlockCompressor.Emits.length_rest {c : BlockCompressor W} {blocks : List Bytes} {rest : Bytes}
    (h : c.Emits call w blocks rest fs w') : rest.length < compressBlockSize := by
  cases h with
  | encode h => exact h.short
  | finishEmpty | finish => exact compressBlockSize_pos

namespace LayeredEncoder

lemma Step.short_of_ok (h : Step call w enc result enc' fs w') (hok : Succeeded result) :
    (pending enc').length < compressBlockSize := by
  cases h with
  | compressed h => exact h.length_rest
  | buffered h => exact h.length_rest
  | wrapped h => exact h.length_rest
  | idle | encrypted => exact compressBlockSize_pos
  | jammed | refused | unwrapped | broken => cases hok

lemma Step.drops (h : Step (.encode []) w enc result enc' fs w') (hfail : ¬Succeeded result) :
    (pending enc').length + compressBlockSize ≤ (pending enc).length := by
  cases h with
  | compressed | idle | buffered | encrypted | wrapped => exact absurd rfl hfail
  | @jammed c blocks bad rest _ _ _ _ h =>
    have hlen := congrArg List.length h.split
    obtain ⟨hbad, -⟩ := h.length_bad_of_encode (by simp)
    simp only [List.length_append, Call.input, List.length_nil] at hlen
    simp only [pending_compress, BlockCompressor.hold_buffer]
    omega
  | refused hne => exact absurd rfl hne
  | @unwrapped c e blocks rest _ _ _ _ h hfs =>
    have hlen := congrArg List.length h.split
    have hblocks : compressBlockSize ≤ blocks.flatten.length :=
      Nat.le_of_dvd (List.length_pos_iff.mpr (h.texts_ne_nil hfs)) (h.dvd_texts (by simp))
    simp only [List.length_append, Call.input, List.length_nil] at hlen
    change rest.length + compressBlockSize ≤ c.buffer.length
    omega
  | @broken c e blocks bad rest _ _ _ _ h =>
    have hlen := congrArg List.length h.split
    obtain ⟨hbad, -⟩ := h.length_bad_of_encode (by simp)
    simp only [List.length_append, Call.input, List.length_nil] at hlen
    change rest.length + compressBlockSize ≤ c.buffer.length
    omega

/-- With nothing pending, `finish` does nothing. -/
lemma finish_of_drained (hempty : pending enc = []) (output : Bytes) (w : W) :
    Encoder.call enc output w .finish = (⟨.ok (), enc, output⟩, w) := by
  obtain ⟨compress, encrypt⟩ := enc
  cases compress with
  | none => cases encrypt <;> rfl
  | some c =>
    have hbuffer : c.buffer = [] := hempty
    have hhold : c.hold [] = c := by rw [← hbuffer, BlockCompressor.hold_self]
    have hcall (output : Bytes) : Encoder.call c output w .finish = (⟨.ok (), c, output⟩, w) := by
      rw [BlockCompressor.call_of_emits (.finishEmpty hbuffer), hhold, PrefixCode.stream_nil,
        List.append_nil]
    cases encrypt with
    | none => rw [call_compress_only, hcall]
    | some e => rw [call_both_of_ok (hcall []), AeadEncoder.encode_nil]

end LayeredEncoder

lemma layered_step (call : Call) (s : Session (LayeredEncoder W) W)
    (h : LayeredEncoder.Layered s.encoder) :
    LayeredEncoder.Layered ((sessions (LayeredEncoder W) W).step call s).2.encoder := by
  obtain ⟨enc, wire, w⟩ := s
  obtain ⟨result, enc', fs, w', hstep, hcall⟩ := LayeredEncoder.call_step h call w
  rw [sessions_step (hcall wire)]
  exact hstep.layered

end Backlog

/-- In every reachable state: a call that succeeds leaves less than a block; a `finish` leaves
nothing even when it fails, so the next one succeeds and adds nothing; and of the next empty
`encode` calls one succeeds, after at most one failure for each block of the backlog. -/
theorem backlog_recovers [Crates W] {compression : Option CompressConfig}
    {encryption : Option EncryptConfig} {enc : LayeredEncoder W}
    (hlayer : compression ≠ none ∨ encryption ≠ none)
    (henc : buildEncoder compression encryption = .ok enc) (calls : List Call) (prior : Bytes) (w : W) :
    let M := sessions (LayeredEncoder W) W
    let s := M.run calls ⟨enc, prior, w⟩
    (∀ call, Succeeded (M.step call s).1 →
      (LayeredEncoder.pending (M.step call s).2.encoder).length < compressBlockSize) ∧
    (LayeredEncoder.pending (M.step .finish s).2.encoder = [] ∧
      M.step .finish (M.step .finish s).2 = (.ok (), (M.step .finish s).2)) ∧
    ∃ k ≤ (LayeredEncoder.pending s.encoder).length / compressBlockSize,
      Succeeded (M.step (.encode []) (M.run (List.replicate k (.encode [])) s)).1 := by
  intro M s
  have hl : LayeredEncoder.Layered s.encoder :=
    M.run_invariant layered_step calls (build_layered hlayer henc)
  have hdrained := pending_finish s
  refine ⟨?_, ⟨hdrained, sessions_step (LayeredEncoder.finish_of_drained hdrained _ _)⟩, ?_⟩
  · intro call hok
    obtain ⟨result, enc', fs, w', hstep, hcall⟩ := LayeredEncoder.call_step hl call s.world
    have hnext := sessions_step (hcall s.wire)
    rw [hnext] at hok ⊢
    exact hstep.short_of_ok hok
  · refine M.accepted_of_repeat (m := fun s => (LayeredEncoder.pending s.encoder).length)
      compressBlockSize_pos (layered_step _) ?_ hl
    rintro ⟨enc, wire, w⟩ hl hfail
    obtain ⟨result, enc', fs, w', hstep, hcall⟩ := LayeredEncoder.call_step hl (.encode []) w
    rw [sessions_step (hcall wire)] at hfail ⊢
    exact hstep.drops hfail

theorem backlog_recovers_sample :
    let M := sessions (LayeredEncoder SampleWorld) SampleWorld
    let s := M.run [.encode SampleWorld.text] ⟨sampleEncoder, [], ⟨false⟩⟩
    M.step .finish (M.step .finish s).2 = (.ok (), (M.step .finish s).2) :=
  (@backlog_recovers SampleWorld _ (some {}) (some ⟨.aes256Gcm, SampleWorld.key⟩) sampleEncoder
    (.inl (by simp)) rfl [.encode SampleWorld.text] [] ⟨false⟩).2.1.2

end WpConnectorUtils.Codec
