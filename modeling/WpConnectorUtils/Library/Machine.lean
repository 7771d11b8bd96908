import Mathlib.Tactic
import Mathlib.Data.List.Basic

/-!
# Machines with fallible steps

A machine answers each command with a reply and a next state. A refused command may still
change the state, so a run goes on through every reply; a run is accepted when every reply
is. The rules here lift what one step preserves to whole runs, and one-step simulations
to run simulations.
-/

universe u v w x y

/-- A deterministic machine with commands `κ`, states `σ` and replies `ρ`. -/
structure Machine (σ : Type u) (κ : Type v) (ρ : Type w) where
  step : κ → σ → ρ × σ

namespace Machine

variable {σ : Type u} {κ : Type v} {ρ : Type w} (M : Machine σ κ ρ)

/-- The state after a list of commands, refused ones included. -/
def run : List κ → σ → σ
  | [], s => s
  | c :: cs, s => run cs (M.step c s).2

/-- The commands of a run with the replies to them. -/
def exchanges : List κ → σ → List (κ × ρ)
  | [], _ => []
  | c :: cs, s => (c, (M.step c s).1) :: exchanges cs (M.step c s).2

/-- Every command of the list is answered with a reply in `ok`. -/
def Accepts (ok : ρ → Prop) : List κ → σ → Prop
  | [], _ => True
  | c :: cs, s => ok (M.step c s).1 ∧ Accepts ok cs (M.step c s).2

/-- Every command of the list meets `P` in the state it is given in. -/
def Along (P : κ → σ → Prop) : List κ → σ → Prop
  | [], _ => True
  | c :: cs, s => P c s ∧ Along P cs (M.step c s).2

lemma run_append (cs ds : List κ) (s : σ) : M.run (cs ++ ds) s = M.run ds (M.run cs s) := by
  induction cs generalizing s with
  | nil => rfl
  | cons c cs ih => exact ih _

@[simp] lemma length_exchanges (cs : List κ) (s : σ) : (M.exchanges cs s).length = cs.length := by
  induction cs generalizing s with
  | nil => rfl
  | cons c cs ih => exact congrArg Nat.succ (ih _)

@[simp] lemma map_fst_exchanges (cs : List κ) (s : σ) : (M.exchanges cs s).map Prod.fst = cs := by
  induction cs generalizing s with
  | nil => rfl
  | cons c cs ih => exact congrArg (c :: ·) (ih _)

/-- Related states of two machines that answer every command alike, and stay related, answer every
list of commands alike. -/
theorem bisimulation {τ : Type x} {M' : Machine τ κ ρ} {R : σ → τ → Prop}
    (hstep : ∀ c s t, R s t →
      (M.step c s).1 = (M'.step c t).1 ∧ R (M.step c s).2 (M'.step c t).2)
    (cs : List κ) {s : σ} {t : τ} (hs : R s t) :
    M.exchanges cs s = M'.exchanges cs t ∧ R (M.run cs s) (M'.run cs t) := by
  induction cs generalizing s t with
  | nil => exact ⟨rfl, hs⟩
  | cons c cs ih =>
    obtain ⟨hreply, hnext⟩ := hstep c s t hs
    obtain ⟨hrest, hrun⟩ := ih hnext
    unfold exchanges
    rw [hreply, hrest]
    exact ⟨rfl, hrun⟩

/-- A map of the states that every step commutes with, reply by reply, commutes with runs. -/
lemma run_map {f : σ → σ} (h : ∀ c s, M.step c (f s) = ((M.step c s).1, f (M.step c s).2))
    (cs : List κ) (s : σ) :
    M.run cs (f s) = f (M.run cs s) ∧ M.exchanges cs (f s) = M.exchanges cs s := by
  have hstep : ∀ c t s, t = f s →
      (M.step c t).1 = (M.step c s).1 ∧ (M.step c t).2 = f (M.step c s).2 := by
    rintro c _ s rfl
    rw [h]
    exact ⟨rfl, rfl⟩
  obtain ⟨hreplies, hrun⟩ := M.bisimulation hstep cs (s := f s) (t := s) rfl
  exact ⟨hrun, hreplies⟩

variable {M} in
lemma run_of_step {c : κ} {cs : List κ} {s s' : σ} {r : ρ} (h : M.step c s = (r, s')) :
    M.run (c :: cs) s = M.run cs s' := by
  change M.run cs (M.step c s).2 = _
  rw [h]

variable {M} in
lemma accepts_of_step {ok : ρ → Prop} {c : κ} {cs : List κ} {s s' : σ} {r : ρ}
    (h : M.step c s = (r, s')) (hr : ok r) (hcs : M.Accepts ok cs s') : M.Accepts ok (c :: cs) s := by
  unfold Accepts
  rw [h]
  exact ⟨hr, hcs⟩

lemma accepts_of_forall {ok : ρ → Prop} (h : ∀ r, ok r) (cs : List κ) (s : σ) :
    M.Accepts ok cs s := by
  induction cs generalizing s with
  | nil => trivial
  | cons c cs ih => exact ⟨h _, ih _⟩

/-- What every step preserves, every run preserves. -/
theorem run_invariant {Inv : σ → Prop} (hstep : ∀ c s, Inv s → Inv (M.step c s).2)
    (cs : List κ) {s : σ} (hs : Inv s) : Inv (M.run cs s) := by
  induction cs generalizing s with
  | nil => exact hs
  | cons c cs ih => exact ih (hstep c s hs)

/-- Conditions that imply each other in the states of an invariant do so along a run. -/
lemma along_mono {Inv : σ → Prop} {P Q : κ → σ → Prop}
    (hinv : ∀ c s, Inv s → Inv (M.step c s).2) (hPQ : ∀ c s, Inv s → P c s → Q c s)
    (cs : List κ) {s : σ} (hs : Inv s) (hP : M.Along P cs s) : M.Along Q cs s := by
  induction cs generalizing s with
  | nil => trivial
  | cons c cs ih => exact ⟨hPQ c s hs hP.1, ih (hinv c s hs) hP.2⟩

/-- A reflexive and transitive relation between the states around every step that meets `P`
holds between the ends of a run whose steps all meet `P`. -/
theorem run_related {Inv : σ → Prop} {P : κ → σ → Prop} {R : σ → σ → Prop}
    (hrefl : ∀ s, R s s) (htrans : ∀ a b c, R a b → R b c → R a c)
    (hinv : ∀ c s, Inv s → Inv (M.step c s).2)
    (hstep : ∀ c s, Inv s → P c s → R s (M.step c s).2)
    (cs : List κ) {s : σ} (hs : Inv s) (hP : M.Along P cs s) : R s (M.run cs s) := by
  induction cs generalizing s with
  | nil => exact hrefl s
  | cons c cs ih => exact htrans _ _ _ (hstep c s hs hP.1) (ih (hinv c s hs) hP.2)

/-- Two machines that take the same commands stay related if every accepted step of the first is
an accepted step of the second. -/
theorem lockstep {τ : Type x} {ρ' : Type y} {M' : Machine τ κ ρ'} {R : σ → τ → Prop}
    {ok : ρ → Prop} {ok' : ρ' → Prop}
    (hstep : ∀ c s t, R s t → ok (M.step c s).1 →
      ok' (M'.step c t).1 ∧ R (M.step c s).2 (M'.step c t).2)
    (cs : List κ) {s : σ} {t : τ} (hs : R s t) (hok : M.Accepts ok cs s) :
    M'.Accepts ok' cs t ∧ R (M.run cs s) (M'.run cs t) := by
  induction cs generalizing s t with
  | nil => exact ⟨trivial, hs⟩
  | cons c cs ih =>
    obtain ⟨hreply, ht⟩ := hstep c s t hs hok.1
    obtain ⟨hrest, hrun⟩ := ih ht hok.2
    exact ⟨⟨hreply, hrest⟩, hrun⟩

/-- Runs of an abstract system given by its steps. -/
inductive AbstractRun {ι : Type y} {τ : Type x} (Step : ι → τ → τ → Prop) : List ι → τ → τ → Prop
  | nil (t : τ) : AbstractRun Step [] t t
  | cons {c : ι} {cs : List ι} {t t' t'' : τ} : Step c t t' → AbstractRun Step cs t' t'' →
      AbstractRun Step (c :: cs) t t''

/-- If every accepted step is matched by a step of the command `abs` makes of it, every accepted
run is matched by an abstract run. -/
theorem simulation {τ : Type x} {ι : Type y} {abs : κ → ι} {Step : ι → τ → τ → Prop}
    {R : σ → τ → Prop} {ok : ρ → Prop}
    (hstep : ∀ c s t, R s t → ok (M.step c s).1 →
      ∃ t', Step (abs c) t t' ∧ R (M.step c s).2 t')
    (cs : List κ) {s : σ} {t : τ} (hs : R s t) (hok : M.Accepts ok cs s) :
    ∃ t', AbstractRun Step (cs.map abs) t t' ∧ R (M.run cs s) t' := by
  induction cs generalizing s t with
  | nil => exact ⟨t, .nil t, hs⟩
  | cons c cs ih =>
    obtain ⟨t', hstep', ht'⟩ := hstep c s t hs hok.1
    obtain ⟨t'', hrun, ht''⟩ := ih ht' hok.2
    exact ⟨t'', .cons hstep' hrun, ht''⟩

/-- If every step, refused or not, is matched by a step with a label that fits the command and its
reply, every run has such labels, and each part of it is matched by the steps with the labels of
that part. -/
theorem simulation_labelled {τ : Type x} {ι : Type y} {Fits : κ × ρ → ι → Prop}
    {Step : ι → τ → τ → Prop} {R : σ → τ → Prop}
    (hstep : ∀ c s t, R s t → ∃ l t', Fits (c, (M.step c s).1) l ∧ Step l t t' ∧ R (M.step c s).2 t')
    (cs : List κ) {s : σ} {t : τ} (hs : R s t) :
    ∃ ls, List.Forall₂ Fits (M.exchanges cs s) ls ∧
      ∀ k, ∃ t', AbstractRun Step (ls.take k) t t' ∧ R (M.run (cs.take k) s) t' := by
  induction cs generalizing s t with
  | nil =>
    refine ⟨[], .nil, fun k => ?_⟩
    rw [List.take_nil, List.take_nil]
    exact ⟨t, .nil t, hs⟩
  | cons c cs ih =>
    obtain ⟨l, t', hfits, hl, ht'⟩ := hstep c s t hs
    obtain ⟨ls, hls, hruns⟩ := ih ht'
    refine ⟨l :: ls, .cons hfits hls, fun k => ?_⟩
    cases k with
    | zero => exact ⟨t, .nil t, hs⟩
    | succ k =>
      obtain ⟨t'', hrun, ht''⟩ := hruns k
      exact ⟨t'', .cons hl hrun, ht''⟩

/-- Steps that append something to a list append, in a run, all of it in order. -/
lemma appended_of_run {α : Type x} {ι : Type y} {f : ι → List α} {ls : List ι} {t t' : List α}
    (h : AbstractRun (fun l t t' => t' = t ++ f l) ls t t') : t' = t ++ (ls.map f).flatten := by
  induction h with
  | nil => simp
  | cons hstep _ ih =>
    rw [ih, hstep]
    simp

/-- A command whose refusals each use up at least `n` of a measure is accepted when it is repeated. -/
theorem accepted_of_repeat {Inv : σ → Prop} {ok : ρ → Prop} {c : κ} {m : σ → Nat} {n : Nat}
    (hn : 0 < n) (hinv : ∀ s, Inv s → Inv (M.step c s).2)
    (hless : ∀ s, Inv s → ¬ok (M.step c s).1 → m (M.step c s).2 + n ≤ m s) {s : σ} (hs : Inv s) :
    ∃ k ≤ m s / n, ok (M.step c (M.run (List.replicate k c) s)).1 := by
  induction hsize : m s using Nat.strong_induction_on generalizing s with
  | _ size ih =>
    subst hsize
    by_cases hok : ok (M.step c s).1
    · exact ⟨0, Nat.zero_le _, hok⟩
    have hdrop := hless s hs hok
    obtain ⟨k, hk, hrun⟩ := ih _ (by omega) (hinv s hs) rfl
    refine ⟨k + 1, ?_, hrun⟩
    have hdiv : (m s - n) / n + 1 = m s / n := by
      rw [← Nat.add_div_right _ hn, Nat.sub_add_cancel (by omega)]
    have hmono : m (M.step c s).2 / n ≤ (m s - n) / n := Nat.div_le_div_right (by omega)
    omega

end Machine
