import WpConnectorUtils.Codec.Losses

/-!
# Messages

A message is sent by any calls and a `finish`. Since `finish` leaves nothing pending even when
it fails, what one message puts on the wire says nothing about another: each piece decodes on
its own, whatever became of the messages before it.
-/

namespace WpConnectorUtils.Codec

variable {W : Type}

/-- Sending messages on one encoder. The reply to a message is the replies to its calls. -/
def messages (σ W : Type) [Encoder σ W] :
    Machine (Session σ W) (List Call) (List (Except CodecError Unit)) where
  step message s :=
    (((sessions σ W).exchanges (message ++ [.finish]) s).map Prod.snd,
      (sessions σ W).run (message ++ [.finish]) s)

lemma messages_nil {σ : Type} [Encoder σ W] (s : Session σ W) :
    (messages σ W).step [] s =
      ([((sessions σ W).step .finish s).1], ((sessions σ W).step .finish s).2) := rfl

lemma messages_cons {σ : Type} [Encoder σ W] (call : Call) (calls : List Call) (s : Session σ W) :
    (messages σ W).step (call :: calls) s =
      (((sessions σ W).step call s).1 ::
          ((messages σ W).step calls ((sessions σ W).step call s).2).1,
        ((messages σ W).step calls ((sessions σ W).step call s).2).2) := rfl

/-- A message that does not fill a block goes out with its `finish`. -/
lemma short_message [Crates W] {c : BlockCompressor W} {e : AeadEncoder W} {chunks : List Bytes}
    {wire : Bytes} {w w' : W} {o : Outcome (LayeredEncoder W)}
    (hshort : (c.buffer ++ chunks.flatten).length < compressBlockSize)
    (hfinish : Encoder.call (⟨some (c.hold (c.buffer ++ chunks.flatten)), some e⟩ : LayeredEncoder W)
      wire w .finish = (o, w')) :
    (messages (LayeredEncoder W) W).step (chunks.map .encode) ⟨⟨some c, some e⟩, wire, w⟩ =
      (List.replicate chunks.length (.ok ()) ++ [o.result], ⟨o.self, o.output, w'⟩) := by
  induction chunks generalizing c with
  | nil =>
    rw [List.flatten_nil, List.append_nil, BlockCompressor.hold_self] at hfinish
    rw [List.map_nil, messages_nil, sessions_step hfinish]
    rfl
  | cons chunk chunks ih =>
    rw [List.flatten_cons, ← List.append_assoc] at hshort hfinish
    have hfirst : (c.buffer ++ chunk).length < compressBlockSize := by
      rw [List.length_append] at hshort
      omega
    have hrest := ih (c := c.hold (c.buffer ++ chunk)) hshort hfinish
    rw [List.map_cons, messages_cons, LayeredEncoder.step_both_short c e chunk wire w hfirst, hrest]
    rfl

/-- The session with more in front of its wire. -/
def Session.after {σ W : Type} (prior : Bytes) (s : Session σ W) : Session σ W :=
  { s with wire := prior ++ s.wire }

lemma plaintext_finish (calls : List Call) : plaintext (calls ++ [.finish]) = plaintext calls := by
  simp [plaintext]

/-! ### The output is never read -/

section Output

variable [Crates W]

lemma call_appends (enc : LayeredEncoder W) (call : Call) (w : W) :
    ∃ result enc' out w', ∀ output,
      Encoder.call enc output w call = (⟨result, enc', output ++ out⟩, w') := by
  by_cases hl : LayeredEncoder.Layered enc
  · obtain ⟨result, enc', fs, w', -, hcall⟩ := LayeredEncoder.call_step hl call w
    exact ⟨result, enc', frameCode.stream fs, w', hcall⟩
  · obtain rfl : enc = ⟨none, none⟩ := not_not.mp hl
    exact ⟨.ok (), ⟨none, none⟩, call.input, w, fun output => LayeredEncoder.call_plain call output w⟩

lemma step_after (prior : Bytes) (call : Call) (s : Session (LayeredEncoder W) W) :
    (sessions (LayeredEncoder W) W).step call (s.after prior) =
      (((sessions (LayeredEncoder W) W).step call s).1,
        ((sessions (LayeredEncoder W) W).step call s).2.after prior) := by
  obtain ⟨enc, wire, w⟩ := s
  obtain ⟨result, enc', out, w', hcall⟩ := call_appends enc call w
  have hafter := sessions_step (hcall (prior ++ wire))
  rw [sessions_step (hcall wire)]
  rw [List.append_assoc] at hafter
  exact hafter

lemma matches_step {dec : LayeredDecoder W} (call : Call) (s : Session (LayeredEncoder W) W)
    (hm : Matches s.encoder dec) :
    Matches ((sessions (LayeredEncoder W) W).step call s).2.encoder dec := by
  obtain ⟨enc, wire, w⟩ := s
  by_cases hl : LayeredEncoder.Layered enc
  · obtain ⟨result, enc', fs, w', hstep, hcall⟩ := LayeredEncoder.call_step hl call w
    rw [sessions_step (hcall wire)]
    exact hstep.matches hm
  · obtain rfl : enc = ⟨none, none⟩ := not_not.mp hl
    rw [sessions_step (LayeredEncoder.call_plain call wire w)]
    exact hm

lemma matches_run {dec : LayeredDecoder W} (calls : List Call) (s : Session (LayeredEncoder W) W)
    (hm : Matches s.encoder dec) :
    Matches ((sessions (LayeredEncoder W) W).run calls s).encoder dec :=
  Machine.run_invariant _ matches_step calls hm

end Output

/-! ### One message -/

/-- A message's part of the wire and the text it decodes to. -/
structure Delivery where
  piece : Bytes
  text : Bytes

/-- The piece decodes on its own to a part of the message, to all of it if every call succeeded. -/
structure Delivered (dec : LayeredDecoder W) (exchange : List Call × List (Except CodecError Unit))
    (d : Delivery) : Prop where
  decodes : Decodes dec d.piece d.text
  part : d.text.Sublist (plaintext exchange.1)
  whole : (∀ reply ∈ exchange.2, Succeeded reply) → d.text = plaintext exchange.1

/-- Passages of calls that all succeed lose nothing. -/
lemma moved_eq_taken {compressing encrypting : Bool}
    {exchanges : List (Call × Except CodecError Unit)} {ps : List (Channel.Passage UInt8)}
    (h : List.Forall₂ (Passes compressing encrypting) exchanges ps)
    (hok : ∀ reply ∈ exchanges.map Prod.snd, Succeeded reply) :
    ps.map Channel.Passage.moved = ps.map Channel.Passage.taken := by
  induction h with
  | nil => rfl
  | @cons exchange p _ _ hp _ ih =>
    rw [List.map_cons, List.forall_mem_cons] at hok
    rw [List.map_cons, List.map_cons, ih hok.2, Channel.Passage.taken, hp.ok_iff.mp hok.1,
      List.append_nil]

/-- The state between two messages. -/
structure Between (dec : LayeredDecoder W) (s : Session (LayeredEncoder W) W) (wire : Bytes) :
    Prop where
  wire_eq : s.wire = wire
  matching : Matches s.encoder dec
  drained : LayeredEncoder.pending s.encoder = []

lemma Between.step [Crates W] {dec : LayeredDecoder W} {s : Session (LayeredEncoder W) W}
    {prior : Bytes} (h : Between dec s prior) (message : List Call) :
    ∃ (d : Delivery) (wire : Bytes),
      Delivered dec (message, ((messages (LayeredEncoder W) W).step message s).1) d ∧
      wire = prior ++ d.piece ∧ Between dec ((messages (LayeredEncoder W) W).step message s).2 wire := by
  obtain ⟨enc, wire, w⟩ := s
  obtain ⟨rfl, hm, hdrained⟩ := h
  dsimp only at hm hdrained
  set M := sessions (LayeredEncoder W) W with hM
  -- the message alone, on an empty output
  set t := M.run (message ++ [.finish]) ⟨enc, [], w⟩ with ht
  obtain ⟨ps, hps, hruns⟩ := passages_of_run hm hdrained (message ++ [.finish]) w
  have hlen : ps.length = (message ++ [Call.finish]).length := by
    rw [← hps.length_eq, Machine.length_exchanges]
  obtain ⟨hsplit, hdec, hpart⟩ := hruns (message ++ [Call.finish]).length
  rw [List.take_of_length_le le_rfl, List.take_of_length_le hlen.le] at hsplit hdec hpart
  rw [plaintext_finish] at hsplit hpart
  have hrun := M.run_map (step_after wire) (message ++ [.finish]) ⟨enc, [], w⟩
  have hsame : (⟨enc, [], w⟩ : Session (LayeredEncoder W) W).after wire = ⟨enc, wire, w⟩ := by
    rw [Session.after, List.append_nil]
  rw [hsame] at hrun
  have hpending : LayeredEncoder.pending t.encoder = [] := by
    rw [ht, Machine.run_append]
    exact pending_finish _
  refine ⟨⟨t.wire, (ps.map Channel.Passage.moved).flatten⟩, wire ++ t.wire, ⟨hdec, hpart, ?_⟩, rfl, ?_⟩
  · intro hok
    have hreplies : ((messages (LayeredEncoder W) W).step message ⟨enc, wire, w⟩).1 =
        (M.exchanges (message ++ [.finish]) ⟨enc, [], w⟩).map Prod.snd := congrArg _ hrun.2
    dsimp only at hok
    rw [hreplies] at hok
    rw [moved_eq_taken hps hok, hsplit, hpending, List.append_nil]
  · change Between dec (M.run (message ++ [.finish]) ⟨enc, wire, w⟩) _
    rw [hrun.1]
    exact ⟨rfl, matches_run _ ⟨enc, [], w⟩ hm, hpending⟩

/-! ### Any messages -/

lemma decodes_of_delivered {dec : LayeredDecoder W}
    {exchanges : List (List Call × List (Except CodecError Unit))} {ds : List Delivery}
    (h : List.Forall₂ (Delivered dec) exchanges ds) : ∀ d ∈ ds, Decodes dec d.piece d.text := by
  induction h with
  | nil => simp
  | cons hd _ ih =>
    rw [List.forall_mem_cons]
    exact ⟨hd.decodes, ih⟩

lemma decodes_selection {dec : LayeredDecoder W} {ds : List Delivery}
    (h : ∀ d ∈ ds, Decodes dec d.piece d.text) :
    Decodes dec (ds.map Delivery.piece).flatten (ds.map Delivery.text).flatten := by
  induction ds with
  | nil => exact decodes_nil dec
  | cons d ds ih =>
    rw [List.forall_mem_cons] at h
    exact h.1.append (ih h.2)

/-- Messages sent on one encoder, whichever of their calls fail: each has its own piece of the
wire, which decodes on its own to a part of the message, to the whole of it if its own calls
succeeded; and the pieces decode so in any selection and order. -/
theorem messages_isolated [Crates W] (laws : Crates.RoundTrip W)
    {compression compression' : Option CompressConfig} {encryption : Option EncryptConfig}
    {enc : LayeredEncoder W} {dec : LayeredDecoder W}
    (halgo : compression'.map CompressConfig.algo = compression.map CompressConfig.algo)
    (henc : buildEncoder compression encryption = .ok enc)
    (hdec : buildDecoder compression' encryption = .ok dec) (sent : List (List Call)) (prior : Bytes)
    (w : W) :
    let M := messages (LayeredEncoder W) W
    ∃ ds : List Delivery, List.Forall₂ (Delivered dec) (M.exchanges sent ⟨enc, prior, w⟩) ds ∧
      (∀ k, (M.run (sent.take k) ⟨enc, prior, w⟩).wire =
        prior ++ ((ds.take k).map Delivery.piece).flatten) ∧
      ∀ chosen ⊆ ds, Decodes dec (chosen.map Delivery.piece).flatten
        (chosen.map Delivery.text).flatten := by
  intro M
  have hstart : Between dec ⟨enc, prior, w⟩ prior :=
    ⟨rfl, build_matches laws halgo henc hdec, build_pending henc⟩
  obtain ⟨ds, hds, hruns⟩ := M.simulation_labelled (R := Between dec)
    (fun message _ _ h => h.step message) sent hstart
  refine ⟨ds, hds, ?_, ?_⟩
  · intro k
    obtain ⟨wire, hrun, hwire⟩ := hruns k
    rw [hwire.wire_eq, Machine.appended_of_run hrun]
  · intro chosen hchosen
    exact decodes_selection (fun d hd => decodes_of_delivered hds d (hchosen hd))

theorem messages_isolated_sample :
    let M := messages (LayeredEncoder SampleWorld) SampleWorld
    let sent : List (List Call) := [[.encode SampleWorld.text], [], [.encode SampleWorld.text]]
    ∃ ds : List Delivery,
      List.Forall₂ (Delivered sampleDecoder) (M.exchanges sent ⟨sampleEncoder, [], ⟨false⟩⟩) ds ∧
      ∀ k, (M.run (sent.take k) ⟨sampleEncoder, [], ⟨false⟩⟩).wire =
        ((ds.take k).map Delivery.piece).flatten := by
  obtain ⟨ds, hds, hwire, -⟩ := @messages_isolated SampleWorld _ SampleWorld.roundTrip (some {})
    (some { level := 19 }) (some ⟨.aes256Gcm, SampleWorld.key⟩) sampleEncoder sampleDecoder rfl rfl rfl
    [[.encode SampleWorld.text], [], [.encode SampleWorld.text]] [] ⟨false⟩
  exact ⟨ds, hds, hwire⟩

end WpConnectorUtils.Codec
