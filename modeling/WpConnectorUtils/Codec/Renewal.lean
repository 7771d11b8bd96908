import WpConnectorUtils.Codec.Messages
import WpConnectorUtils.Codec.Statistics

/-!
# One encoder for many messages

A `finish` brings an encoder back to its first state, but for the counters, and no call reads the
counters. So an encoder that is kept for many messages does what a new one for each of them would
do.
-/

namespace WpConnectorUtils.Codec

variable {W : Type}

/-! ### The counters are never read -/

namespace AeadEncoder

@[simp] lemma advance_cipher (e : AeadEncoder W) (n m : Nat) : (e.advance n m).cipher = e.cipher := rfl

@[simp] lemma advance_kind (e : AeadEncoder W) (n m : Nat) : (e.advance n m).kind = e.kind := rfl

lemma advance_advance (e : AeadEncoder W) (n m n' m' : Nat) :
    (e.advance n m).advance n' m' = e.advance (n + n') (m + m') := by
  simp [advance, Nat.add_assoc]

lemma count_advance (e : AeadEncoder W) (input : Bytes) (n m : Nat) :
    (e.advance n m).count input = (e.count input).advance n m := by
  simp [advance, count, Nat.add_right_comm]

lemma encode_advance [Crates W] {e e' : AeadEncoder W} {input output out : Bytes} {w w' : W}
    {result : Except CodecError Unit} (h : e.encode input output w = (⟨result, e', out⟩, w'))
    (n m : Nat) :
    (e.advance n m).encode input output w = (⟨result, e'.advance n m, out⟩, w') := by
  unfold encode at h ⊢
  split at h
  · rename_i hempty
    rw [if_pos hempty]
    cases h
    rfl
  rename_i hempty
  rw [if_neg hempty]
  rcases hnonce : newNonce w with ⟨drawn, w₁⟩
  rw [hnonce] at h
  cases drawn with
  | error err =>
    cases h
    rfl
  | ok nonce =>
    dsimp only [advance_cipher, advance_kind] at h ⊢
    rcases hseal : e.cipher.aeadSeal nonce [e.kind.toU8] input w₁ with ⟨sealed, w₂⟩
    rw [hseal] at h
    cases sealed with
    | error err =>
      cases h
      rfl
    | ok sealed =>
      dsimp only at h ⊢
      rcases hblock : putBlock output e.kind (nonce.val ++ sealed) with ⟨block, out'⟩
      rw [hblock] at h
      cases block with
      | error err =>
        cases h
        rfl
      | ok u =>
        cases h
        rw [count_advance]

end AeadEncoder

namespace LayeredEncoder

def advance (n m : Nat) (enc : LayeredEncoder W) : LayeredEncoder W :=
  { enc with encrypt := enc.encrypt.map fun e => e.advance n m }

/-- The encoder with another buffer, if it compresses. -/
def hold (buffer : Bytes) (enc : LayeredEncoder W) : LayeredEncoder W :=
  { enc with compress := enc.compress.map fun c => c.hold buffer }

@[simp] lemma advance_zero (enc : LayeredEncoder W) : advance 0 0 enc = enc := by
  obtain ⟨compress, encrypt⟩ := enc
  cases encrypt <;> rfl

lemma advance_advance (n m n' m' : Nat) (enc : LayeredEncoder W) :
    advance n m (advance n' m' enc) = advance (n + n') (m + m') enc := by
  obtain ⟨compress, encrypt⟩ := enc
  cases encrypt <;> simp [advance, AeadEncoder.advance_advance, Nat.add_comm]

lemma hold_advance_hold (buffer buffer' : Bytes) (n m : Nat) (enc : LayeredEncoder W) :
    hold buffer (advance n m (hold buffer' enc)) = advance n m (hold buffer enc) := by
  obtain ⟨compress, encrypt⟩ := enc
  cases compress <;> rfl

section Calls

variable [Crates W] {call : Call} {w w' : W} {enc enc' : LayeredEncoder W}
  {result : Except CodecError Unit} {output out : Bytes} {fs : List Frame}

lemma call_advance (h : Encoder.call enc output w call = (⟨result, enc', out⟩, w')) (n m : Nat) :
    Encoder.call (advance n m enc) output w call = (⟨result, advance n m enc', out⟩, w') := by
  obtain ⟨compress, encrypt⟩ := enc
  cases encrypt with
  | none =>
    cases compress with
    | none =>
      rw [call_plain] at h
      cases h
      exact call_plain call output w
    | some c =>
      rw [call_compress_only] at h
      cases h
      exact call_compress_only c output w call
  | some e =>
    cases compress with
    | none =>
      rw [call_encrypt_only] at h
      change Encoder.call (⟨none, some (e.advance n m)⟩ : LayeredEncoder W) output w call = _
      rcases he : e.encode call.input output w with ⟨⟨result', e', out'⟩, w₁⟩
      rw [he] at h
      cases h
      rw [call_encrypt_only, AeadEncoder.encode_advance he]
      rfl
    | some c =>
      change Encoder.call (⟨some c, some (e.advance n m)⟩ : LayeredEncoder W) output w call = _
      rcases hmid : Encoder.call c [] w call with ⟨⟨result', c', mid⟩, w₁⟩
      cases result' with
      | error err =>
        rw [call_both_of_error hmid] at h ⊢
        cases h
        rfl
      | ok u =>
        rcases he : e.encode mid output w₁ with ⟨⟨result', e', out'⟩, w₂⟩
        rw [call_both_of_ok hmid, he] at h
        cases h
        rw [call_both_of_ok hmid, AeadEncoder.encode_advance he]
        rfl

/-- A call changes the buffer and the counters only. -/
lemma Step.renews (h : Step call w enc result enc' fs w') :
    ∃ buffer n m, enc' = advance n m (hold buffer enc) := by
  cases h with
  | @compressed _ _ rest | @jammed _ _ _ rest | @buffered _ _ rest | @unwrapped _ _ _ rest
  | @broken _ _ _ _ rest => exact ⟨rest, 0, 0, rfl⟩
  | idle | refused => exact ⟨[], 0, 0, rfl⟩
  | encrypted => exact ⟨[], 1, call.input.length, rfl⟩
  | @wrapped c _ _ rest fs => exact ⟨rest, 1, (frameCode.stream fs).length, rfl⟩

end Calls

/-- An encoder that holds nothing is not changed by emptying its buffer. -/
lemma hold_of_drained {buffer : Bytes} {n m : Nat} {enc : LayeredEncoder W} (hstart : pending enc = [])
    (hempty : pending (advance n m (hold buffer enc)) = []) :
    advance n m (hold buffer enc) = advance n m enc := by
  obtain ⟨compress, encrypt⟩ := enc
  cases compress with
  | none => rfl
  | some c =>
    obtain rfl : buffer = [] := hempty
    have hbuffer : c.buffer = [] := hstart
    rw [← hbuffer]
    rfl

end LayeredEncoder

/-! ### Runs -/

def Session.advance (n m : Nat) (s : Session (LayeredEncoder W) W) : Session (LayeredEncoder W) W :=
  { s with encoder := LayeredEncoder.advance n m s.encoder }

/-- But for the buffer and the counters, the session's encoder is `enc`. -/
def Renewed (enc : LayeredEncoder W) (s : Session (LayeredEncoder W) W) : Prop :=
  ∃ buffer n m, s.encoder = LayeredEncoder.advance n m (LayeredEncoder.hold buffer enc)

lemma Renewed.start {enc : LayeredEncoder W} (wire : Bytes) (w : W) : Renewed enc ⟨enc, wire, w⟩ := by
  refine ⟨LayeredEncoder.pending enc, 0, 0, ?_⟩
  obtain ⟨compress, encrypt⟩ := enc
  cases compress <;> cases encrypt <;> rfl

section Runs

variable [Crates W]

lemma step_advance (n m : Nat) (call : Call) (s : Session (LayeredEncoder W) W) :
    (sessions (LayeredEncoder W) W).step call (s.advance n m) =
      (((sessions (LayeredEncoder W) W).step call s).1,
        ((sessions (LayeredEncoder W) W).step call s).2.advance n m) := by
  obtain ⟨enc, wire, w⟩ := s
  rcases hcall : Encoder.call enc wire w call with ⟨⟨result, enc', out⟩, w'⟩
  rw [sessions_step hcall]
  exact sessions_step (LayeredEncoder.call_advance hcall n m)

lemma message_advance (n m : Nat) (message : List Call) (s : Session (LayeredEncoder W) W) :
    (messages (LayeredEncoder W) W).step message (s.advance n m) =
      (((messages (LayeredEncoder W) W).step message s).1,
        ((messages (LayeredEncoder W) W).step message s).2.advance n m) := by
  obtain ⟨hrun, hexchanges⟩ := Machine.run_map _ (step_advance n m) (message ++ [.finish]) s
  unfold messages
  dsimp only
  rw [hrun, hexchanges]

lemma Renewed.step {enc : LayeredEncoder W} (call : Call) (s : Session (LayeredEncoder W) W)
    (h : Renewed enc s) : Renewed enc ((sessions (LayeredEncoder W) W).step call s).2 := by
  obtain ⟨enc₁, wire, w⟩ := s
  obtain ⟨buffer, n, m, henc⟩ := h
  by_cases hl : LayeredEncoder.Layered enc₁
  · obtain ⟨result, enc₂, fs, w', hstep, hcall⟩ := LayeredEncoder.call_step hl call w
    rw [sessions_step (hcall wire)]
    obtain ⟨buffer', n', m', rfl⟩ := hstep.renews
    obtain rfl : enc₁ = _ := henc
    rw [LayeredEncoder.hold_advance_hold, LayeredEncoder.advance_advance]
    exact ⟨buffer', n' + n, m' + m, rfl⟩
  · obtain rfl : enc₁ = ⟨none, none⟩ := not_not.mp hl
    rw [sessions_step (LayeredEncoder.call_plain call wire w)]
    exact ⟨buffer, n, m, henc⟩

/-- After a message, an encoder that began with an empty buffer has changed its counters only. -/
lemma renewed_of_message {enc : LayeredEncoder W} (hempty : LayeredEncoder.pending enc = [])
    (message : List Call) (wire : Bytes) (w : W) :
    ∃ n m, ((messages (LayeredEncoder W) W).step message ⟨enc, wire, w⟩).2.encoder =
      LayeredEncoder.advance n m enc := by
  have hrenewed : Renewed enc ((messages (LayeredEncoder W) W).step message ⟨enc, wire, w⟩).2 :=
    Machine.run_invariant _ Renewed.step _ (Renewed.start wire w)
  obtain ⟨buffer, n, m, henc⟩ := hrenewed
  have hdrained : LayeredEncoder.pending
      ((messages (LayeredEncoder W) W).step message ⟨enc, wire, w⟩).2.encoder = [] := by
    change LayeredEncoder.pending
      ((sessions (LayeredEncoder W) W).run (message ++ [.finish]) ⟨enc, wire, w⟩).encoder = []
    rw [Machine.run_append]
    exact pending_finish _
  rw [henc] at hdrained ⊢
  exact ⟨n, m, LayeredEncoder.hold_of_drained hempty hdrained⟩

/-! ### A new encoder for each message -/

/-- What remains of encoders that have been used up: what they wrote, the world, and the sum of
their counters. -/
structure Ledger (W : Type) where
  wire : Bytes
  world : W
  stats : CodecStats

/-- Each message is sent on a new encoder, which is `enc` as it was built. -/
def renewals (enc : LayeredEncoder W) :
    Machine (Ledger W) (List Call) (List (Except CodecError Unit)) where
  step message t :=
    let (replies, s) := (messages (LayeredEncoder W) W).step message ⟨enc, t.wire, t.world⟩
    let used := Encoder.stats s.encoder
    (replies, ⟨s.wire, s.world,
      ⟨t.stats.noncesIssued + used.noncesIssued, t.stats.sealedBytes + used.sealedBytes⟩⟩)

lemma renewals_step {enc : LayeredEncoder W} {message : List Call} {wire : Bytes} {w : W}
    {stats : CodecStats} {replies : List (Except CodecError Unit)} {s : Session (LayeredEncoder W) W}
    (h : (messages (LayeredEncoder W) W).step message ⟨enc, wire, w⟩ = (replies, s)) :
    (renewals enc).step message ⟨wire, w, stats⟩ = (replies, ⟨s.wire, s.world,
      ⟨stats.noncesIssued + (Encoder.stats s.encoder).noncesIssued,
        stats.sealedBytes + (Encoder.stats s.encoder).sealedBytes⟩⟩) := by
  simp only [renewals, h]

/-- The session's encoder is `enc` but for the counters, which are those of the ledger. -/
inductive Stands (enc : LayeredEncoder W) : Session (LayeredEncoder W) W → Ledger W → Prop
  | mk (n m : Nat) (wire : Bytes) (w : W) : Stands enc ⟨LayeredEncoder.advance n m enc, wire, w⟩
      ⟨wire, w, Encoder.stats (LayeredEncoder.advance n m enc)⟩

lemma LayeredEncoder.stats_advance_add {enc : LayeredEncoder W} (hzero : Encoder.stats enc = {})
    (n m n' m' : Nat) : Encoder.stats (advance (n + n') (m + m') enc) =
      ⟨(Encoder.stats (advance n m enc)).noncesIssued +
          (Encoder.stats (advance n' m' enc)).noncesIssued,
        (Encoder.stats (advance n m enc)).sealedBytes +
          (Encoder.stats (advance n' m' enc)).sealedBytes⟩ := by
  obtain ⟨compress, encrypt⟩ := enc
  cases encrypt with
  | none => rfl
  | some e =>
    obtain ⟨cipher, kind, issued, sealed⟩ := e
    cases hzero
    change (⟨0 + (n + n'), 0 + (m + m')⟩ : CodecStats) = ⟨0 + n + (0 + n'), 0 + m + (0 + m')⟩
    simp only [Nat.zero_add]

lemma Stands.step {enc : LayeredEncoder W} (hempty : LayeredEncoder.pending enc = [])
    (hzero : Encoder.stats enc = {}) (message : List Call) (s : Session (LayeredEncoder W) W)
    (t : Ledger W) (h : Stands enc s t) :
    ((messages (LayeredEncoder W) W).step message s).1 = ((renewals enc).step message t).1 ∧
      Stands enc ((messages (LayeredEncoder W) W).step message s).2
        ((renewals enc).step message t).2 := by
  cases h with
  | mk n m wire w =>
    obtain ⟨n', m', henc⟩ := renewed_of_message hempty message wire w
    rcases hnew : (messages (LayeredEncoder W) W).step message ⟨enc, wire, w⟩ with
      ⟨replies, enc', wire', w'⟩
    have hreused := message_advance n m message ⟨enc, wire, w⟩
    rw [hnew] at henc hreused
    obtain rfl : enc' = LayeredEncoder.advance n' m' enc := henc
    change (messages (LayeredEncoder W) W).step message
      ⟨LayeredEncoder.advance n m enc, wire, w⟩ = _ at hreused
    rw [renewals_step hnew, hreused]
    refine ⟨rfl, ?_⟩
    dsimp only [Session.advance]
    rw [LayeredEncoder.advance_advance, ← LayeredEncoder.stats_advance_add hzero]
    exact .mk (n + n') (m + m') wire' w'

lemma Stands.agrees {enc : LayeredEncoder W} {s : Session (LayeredEncoder W) W} {t : Ledger W}
    (h : Stands enc s t) :
    s.wire = t.wire ∧ s.world = t.world ∧ Encoder.stats s.encoder = t.stats ∧
    ∀ calls, let N := sessions (LayeredEncoder W) W
      N.exchanges calls s = N.exchanges calls ⟨enc, t.wire, t.world⟩ ∧
      (N.run calls s).wire = (N.run calls ⟨enc, t.wire, t.world⟩).wire ∧
      (N.run calls s).world = (N.run calls ⟨enc, t.wire, t.world⟩).world := by
  cases h with
  | mk n m wire w =>
    refine ⟨rfl, rfl, rfl, fun calls => ?_⟩
    obtain ⟨hrun, hreplies⟩ := Machine.run_map _ (step_advance n m) calls ⟨enc, wire, w⟩
    change _ ∧
      ((sessions (LayeredEncoder W) W).run calls (Session.advance n m ⟨enc, wire, w⟩)).wire = _ ∧
      ((sessions (LayeredEncoder W) W).run calls (Session.advance n m ⟨enc, wire, w⟩)).world = _
    rw [hrun]
    exact ⟨hreplies, rfl, rfl⟩

lemma build_stats {compression : Option CompressConfig} {encryption : Option EncryptConfig}
    {enc : LayeredEncoder W} (henc : buildEncoder compression encryption = .ok enc) :
    Encoder.stats enc = {} := by
  obtain ⟨-, he⟩ := buildEncoder_ok henc
  obtain ⟨compress, encrypt⟩ := enc
  cases he with
  | none => rfl
  | some he =>
    obtain ⟨cipher, -, rfl⟩ := buildEncryptor_ok he
    rfl

/-- Messages sent on one encoder, whichever of their calls fail, have the replies, the wire and the
effects on the world that they have when each is sent on a new encoder, and the counters are the
sums of those of the new ones. The calls of a next message, finished or not, go as on a new one. -/
theorem reused_as_new {compression : Option CompressConfig} {encryption : Option EncryptConfig}
    {enc : LayeredEncoder W} (henc : buildEncoder compression encryption = .ok enc)
    (sent : List (List Call)) (prior : Bytes) (w : W) :
    let M := messages (LayeredEncoder W) W
    let s := M.run sent ⟨enc, prior, w⟩
    let t := (renewals enc).run sent ⟨prior, w, {}⟩
    M.exchanges sent ⟨enc, prior, w⟩ = (renewals enc).exchanges sent ⟨prior, w, {}⟩ ∧
    s.wire = t.wire ∧ s.world = t.world ∧ Encoder.stats s.encoder = t.stats ∧
    ∀ calls, let N := sessions (LayeredEncoder W) W
      N.exchanges calls s = N.exchanges calls ⟨enc, t.wire, t.world⟩ ∧
      (N.run calls s).wire = (N.run calls ⟨enc, t.wire, t.world⟩).wire ∧
      (N.run calls s).world = (N.run calls ⟨enc, t.wire, t.world⟩).world := by
  intro M s t
  have hstart : Stands enc ⟨enc, prior, w⟩ ⟨prior, w, {}⟩ := by
    have hmk := @Stands.mk W _ enc 0 0 prior w
    rw [LayeredEncoder.advance_zero, build_stats henc] at hmk
    exact hmk
  obtain ⟨hreplies, hrun⟩ := M.bisimulation
    (Stands.step (build_pending henc) (build_stats henc)) sent hstart
  exact ⟨hreplies, hrun.agrees⟩

/-- The second message is empty, and the third one is sent in two calls. -/
theorem reused_as_new_sample :
    let M := messages (LayeredEncoder SampleWorld) SampleWorld
    let sent : List (List Call) :=
      [[.encode SampleWorld.text], [], [.encode SampleWorld.text, .encode []]]
    M.exchanges sent ⟨sampleEncoder, [], ⟨false⟩⟩ =
      (renewals sampleEncoder).exchanges sent ⟨[], ⟨false⟩, {}⟩ ∧
    (M.run sent ⟨sampleEncoder, [], ⟨false⟩⟩).wire =
      ((renewals sampleEncoder).run sent ⟨[], ⟨false⟩, {}⟩).wire := by
  obtain ⟨hreplies, hwire, -⟩ := @reused_as_new SampleWorld _ (some {})
    (some ⟨.aes256Gcm, SampleWorld.key⟩) sampleEncoder rfl
    [[.encode SampleWorld.text], [], [.encode SampleWorld.text, .encode []]] [] ⟨false⟩
  exact ⟨hreplies, hwire⟩

end Runs

end WpConnectorUtils.Codec
