import WpConnectorUtils.Library.Machine

/-!
# Buffered channels

The abstract purpose of a streaming encoder. A channel has delivered a prefix of what it
was sent and holds the rest; sending may deliver any part of what it then holds, flushing
delivers all of it. Nothing is lost, duplicated or reordered in any run.
-/

universe u

/-- What has been delivered and what is still held. -/
structure Channel (α : Type u) where
  delivered : List α
  pending : List α

namespace Channel

variable {α : Type u}

inductive Command (α : Type u)
  | send (data : List α)
  | flush

/-- The data handed over by a command. -/
def Command.data : Command α → List α
  | .send data => data
  | .flush => []

/-- Everything the channel was given, delivered or held. -/
def held (c : Channel α) : List α := c.delivered ++ c.pending

/-- The steps of a channel. -/
inductive Step : Command α → Channel α → Channel α → Prop
  | send {c c' : Channel α} (data : List α) : c.delivered <+: c'.delivered →
      c'.held = c.held ++ data → Step (.send data) c c'
  | flush {c c' : Channel α} : c'.delivered = c.held → c'.pending = [] → Step .flush c c'

/-- Data that moves from the pending end to the delivered end is a step, and a flush has to move
everything. -/
lemma step_of_move {k : Command α} {c : Channel α} (moved : List α) {pending : List α}
    (hmove : c.pending ++ k.data = moved ++ pending) (hflush : k = .flush → pending = []) :
    Step k c ⟨c.delivered ++ moved, pending⟩ := by
  cases k with
  | send data =>
    refine .send data ⟨moved, rfl⟩ ?_
    simp only [held, List.append_assoc]
    rw [← hmove, Command.data]
  | flush =>
    have hnil := hflush rfl
    rw [hnil, Command.data, List.append_nil, List.append_nil] at hmove
    refine .flush ?_ hnil
    rw [held, hmove]

lemma Step.held_eq {k : Command α} {c c' : Channel α} (h : Step k c c') :
    c'.held = c.held ++ k.data := by
  cases h with
  | send data _ hheld => exact hheld
  | flush hdel hpend => simp [held, hdel, hpend, Command.data]

/-- A run holds exactly what it was sent after what it held before. -/
theorem held_of_run {ks : List (Command α)} {c c' : Channel α}
    (h : Machine.AbstractRun Step ks c c') : c'.held = c.held ++ (ks.map Command.data).flatten := by
  induction h with
  | nil c => simp
  | cons hstep _ ih => rw [ih, hstep.held_eq, List.map_cons, List.flatten_cons, List.append_assoc]

lemma exists_last_step {ks : List (Command α)} {k : Command α} {c c' : Channel α}
    (h : Machine.AbstractRun Step (ks ++ [k]) c c') :
    ∃ d, Machine.AbstractRun Step ks c d ∧ Step k d c' := by
  induction ks generalizing c with
  | nil =>
    cases h with
    | cons hstep hrest =>
      cases hrest with
      | nil => exact ⟨c, .nil c, hstep⟩
  | cons l ks ih =>
    cases h with
    | cons hstep hrest =>
      obtain ⟨d, hrun, hlast⟩ := ih hrest
      exact ⟨d, .cons hstep hrun, hlast⟩

/-- A run from an empty channel that ends with a flush has delivered exactly what was sent. -/
theorem delivered_of_flushed {ks : List (Command α)} {c : Channel α}
    (h : Machine.AbstractRun Step (ks ++ [.flush]) ⟨[], []⟩ c) :
    c.delivered = (ks.map Command.data).flatten ∧ c.pending = [] := by
  obtain ⟨d, hrun, hlast⟩ := exists_last_step h
  have hheld := held_of_run hrun
  cases hlast with
  | flush hdel hpend => exact ⟨by rw [hdel, hheld]; simp [held], hpend⟩

/-! ### Loss -/

/-- What becomes of the front of what a lossy channel holds when it is given `data`: first some of
it arrives, then some of it is lost. -/
structure Passage (α : Type u) where
  data : List α
  moved : List α
  lost : List α

/-- What a passage takes out of the channel. -/
def Passage.taken (p : Passage α) : List α := p.moved ++ p.lost

/-- The steps of a lossy channel. -/
structure Passage.Step (p : Passage α) (c c' : Channel α) : Prop where
  delivered : c'.delivered = c.delivered ++ p.moved
  split : c.pending ++ p.data = p.taken ++ c'.pending

/-- In a run of a lossy channel what was sent is what was taken out, in order, and what is still
held; of what was taken out, what was moved has arrived. -/
theorem conserved_of_run {ps : List (Passage α)} {c c' : Channel α}
    (h : Machine.AbstractRun Passage.Step ps c c') :
    c'.delivered = c.delivered ++ (ps.map Passage.moved).flatten ∧
      c.pending ++ (ps.map Passage.data).flatten = (ps.map Passage.taken).flatten ++ c'.pending := by
  induction h with
  | nil c => simp
  | @cons p ps c d c' hstep _ ih =>
    obtain ⟨hdel, hsplit⟩ := ih
    constructor
    · rw [hdel, hstep.delivered]
      simp
    · calc c.pending ++ ((p :: ps).map Passage.data).flatten
          = (c.pending ++ p.data) ++ (ps.map Passage.data).flatten := by simp
        _ = p.taken ++ (d.pending ++ (ps.map Passage.data).flatten) := by
          rw [hstep.split, List.append_assoc]
        _ = ((p :: ps).map Passage.taken).flatten ++ c'.pending := by
          rw [hsplit]
          simp

/-- What arrives is what was sent with the lost parts left out. -/
lemma moved_sublist_taken (ps : List (Passage α)) :
    ((ps.map Passage.moved).flatten).Sublist (ps.map Passage.taken).flatten := by
  induction ps with
  | nil => exact .slnil
  | cons p ps ih => exact (List.sublist_append_left p.moved p.lost).append ih

/-! ### Several senders -/

/-- Lossy channels with one destination: what has arrived from all senders together, and what each
of them holds. -/
structure Merge (ι : Type*) (α : Type u) where
  delivered : List α
  pending : ι → List α

section Merge

variable {ι : Type*}

/-- A passage of one sender; the others hold what they held. -/
structure Merge.Step (entry : ι × Passage α) (c c' : Merge ι α) : Prop where
  delivered : c'.delivered = c.delivered ++ entry.2.moved
  split : c.pending entry.1 ++ entry.2.data = entry.2.taken ++ c'.pending entry.1
  others : ∀ i ≠ entry.1, c'.pending i = c.pending i

variable [DecidableEq ι]

/-- The entries of sender `i` in a log. -/
def ofSender {β : Type*} (i : ι) (log : List (ι × β)) : List β :=
  (log.filter fun entry => entry.1 = i).map Prod.snd

lemma ofSender_cons_self {β : Type*} (i : ι) (b : β) (log : List (ι × β)) :
    ofSender i ((i, b) :: log) = b :: ofSender i log := by
  simp [ofSender]

lemma ofSender_cons_of_ne {β : Type*} {i j : ι} (h : j ≠ i) (b : β) (log : List (ι × β)) :
    ofSender i ((j, b) :: log) = ofSender i log := by
  simp [ofSender, h]

/-- To each sender the run is one of a channel of its own. -/
theorem Merge.view_of_run {log : List (ι × Passage α)} {c c' : Merge ι α}
    (h : Machine.AbstractRun Merge.Step log c c') (i : ι) (sent : List α) :
    ∃ sent', Machine.AbstractRun Passage.Step (ofSender i log) ⟨sent, c.pending i⟩
      ⟨sent', c'.pending i⟩ := by
  induction h generalizing sent with
  | nil c => exact ⟨sent, .nil _⟩
  | @cons entry log c d c' hstep _ ih =>
    obtain ⟨j, p⟩ := entry
    by_cases hij : j = i
    · subst hij
      obtain ⟨sent', hrun⟩ := ih (sent ++ p.moved)
      rw [ofSender_cons_self]
      exact ⟨sent', .cons ⟨rfl, hstep.split⟩ hrun⟩
    · obtain ⟨sent', hrun⟩ := ih sent
      rw [ofSender_cons_of_ne hij, ← hstep.others i (Ne.symm hij)]
      exact ⟨sent', hrun⟩

/-- All that arrives is what was moved, in the order of the passages; and for every sender what it
was given is what was taken from it, in order, and what it holds. -/
theorem Merge.conserved_of_run {log : List (ι × Passage α)} {c c' : Merge ι α}
    (h : Machine.AbstractRun Merge.Step log c c') :
    c'.delivered = c.delivered ++ (log.map fun entry => entry.2.moved).flatten ∧
      ∀ i, c.pending i ++ ((ofSender i log).map Passage.data).flatten =
        ((ofSender i log).map Passage.taken).flatten ++ c'.pending i := by
  constructor
  · induction h with
    | nil => simp
    | cons hstep _ ih =>
      rw [ih, hstep.delivered]
      simp
  · intro i
    obtain ⟨sent', hrun⟩ := Merge.view_of_run h i []
    exact (Channel.conserved_of_run hrun).2

end Merge

end Channel
