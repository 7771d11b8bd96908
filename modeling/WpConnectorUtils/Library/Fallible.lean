import Mathlib.Tactic
import Mathlib.Data.List.Forall2

/-!
# Fallible computations

When computations in `Except` return, and with which errors they stop: sequencing, conversion
of the error, a traversal of a list and a loop that carries a state.
-/

namespace Except

variable {ε ε' α β σ : Type}

lemma pure_eq_ok {a b : α} : (pure a : Except ε α) = .ok b ↔ a = b := by
  change Except.ok a = Except.ok b ↔ a = b
  rw [Except.ok.injEq]

lemma bind_eq_ok {x : Except ε α} {f : α → Except ε β} {b : β} :
    (x >>= f) = .ok b ↔ ∃ a, x = .ok a ∧ f a = .ok b := by
  cases x <;> simp [bind, Except.bind]

lemma mapError_eq_ok {f : ε → ε'} {x : Except ε α} {a : α} :
    x.mapError f = .ok a ↔ x = .ok a := by
  cases x <;> simp [Except.mapError]

/-- A traversal returns when each of its calls does. -/
lemma mapM_eq_ok {f : α → Except ε β} {xs : List α} {ys : List β} :
    xs.mapM f = .ok ys ↔ List.Forall₂ (fun x y => f x = .ok y) xs ys := by
  induction xs generalizing ys with
  | nil =>
    rw [List.mapM_nil, pure_eq_ok, List.forall₂_nil_left_iff, eq_comm]
  | cons x xs ih =>
    simp only [List.mapM_cons, bind_eq_ok, pure_eq_ok, List.forall₂_cons_left_iff, ih]
    constructor
    · rintro ⟨y, hy, zs, hzs, rfl⟩
      exact ⟨y, zs, hy, hzs, rfl⟩
    · rintro ⟨y, zs, hy, hzs, rfl⟩
      exact ⟨y, hy, zs, hzs, rfl⟩

lemma bind_eq_error {x : Except ε α} {f : α → Except ε β} {e : ε} :
    (x >>= f) = .error e ↔ x = .error e ∨ ∃ a, x = .ok a ∧ f a = .error e := by
  cases x <;> simp [bind, Except.bind]

/-- A traversal stops with the error of the first call that fails. -/
lemma mapM_eq_error {f : α → Except ε β} {xs : List α} {e : ε} :
    xs.mapM f = .error e ↔ ∃ before x after ys, xs = before ++ x :: after ∧
      before.mapM f = .ok ys ∧ f x = .error e := by
  constructor
  · intro h
    induction xs with
    | nil => cases h
    | cons x xs ih =>
      rw [List.mapM_cons, bind_eq_error] at h
      rcases h with h | ⟨y, hy, h⟩
      · exact ⟨[], x, xs, [], rfl, rfl, h⟩
      · rw [bind_eq_error] at h
        rcases h with h | ⟨ys, -, h⟩
        · obtain ⟨before, z, after, ys, rfl, hys, hz⟩ := ih h
          refine ⟨x :: before, z, after, y :: ys, rfl, ?_, hz⟩
          rw [mapM_eq_ok] at hys ⊢
          exact .cons hy hys
        · cases h
  · rintro ⟨before, x, after, ys, rfl, hys, hx⟩
    rw [List.mapM_append, hys, List.mapM_cons, hx]
    rfl

/-- A loop whose steps can stop only before they touch the state: a traversal, then a fold. -/
lemma foldlM_bind_eq {f : α → Except ε β} {g : σ → β → Except ε σ} {step : σ → β → σ}
    {I : σ → Prop} (hstep : ∀ s, I s → ∀ b, g s b = .ok (step s b) ∧ I (step s b)) {s : σ}
    (hs : I s) (xs : List α) :
    xs.foldlM (fun s x => f x >>= g s) s = xs.mapM f >>= fun ys => .ok (ys.foldl step s) := by
  induction xs generalizing s with
  | nil => rfl
  | cons x xs ih =>
    rw [List.foldlM_cons, List.mapM_cons]
    cases f x with
    | error e => rfl
    | ok b =>
      obtain ⟨hb, hI⟩ := hstep s hs b
      change g s b >>= _ = _
      rw [hb]
      change xs.foldlM _ (step s b) = _
      rw [ih hI]
      cases xs.mapM f <;> rfl

lemma mapM_total {f : α → Except ε β} {xs : List α} (h : ∀ x ∈ xs, ∃ y, f x = .ok y) :
    ∃ ys, xs.mapM f = .ok ys := by
  induction xs with
  | nil => exact ⟨[], rfl⟩
  | cons x xs ih =>
    obtain ⟨y, hy⟩ := h x List.mem_cons_self
    obtain ⟨ys, hys⟩ := ih fun z hz => h z (List.mem_cons_of_mem x hz)
    rw [mapM_eq_ok] at hys
    exact ⟨y :: ys, mapM_eq_ok.mpr (.cons hy hys)⟩

lemma mapM_congr {f g : α → Except ε β} {xs : List α} (h : ∀ x ∈ xs, f x = g x) :
    xs.mapM f = xs.mapM g := by
  induction xs with
  | nil => rfl
  | cons x xs ih =>
    rw [List.mapM_cons, List.mapM_cons, h x List.mem_cons_self,
      ih fun y hy => h y (List.mem_cons_of_mem x hy)]

lemma foldlM_cons_eq_ok {f : σ → α → Except ε σ} {x : α} {xs : List α} {s t : σ} :
    (x :: xs).foldlM f s = .ok t ↔ ∃ s', f s x = .ok s' ∧ xs.foldlM f s' = .ok t := by
  rw [List.foldlM_cons, bind_eq_ok]

/-- A loop whose steps are those of a function, as long as the state satisfies an invariant. -/
lemma foldlM_eq_foldl {f : σ → α → Except ε σ} {g : σ → α → σ} {I : σ → Prop} {xs : List α}
    (hstep : ∀ s, I s → ∀ x ∈ xs, f s x = .ok (g s x) ∧ I (g s x)) {s : σ} (hs : I s) :
    xs.foldlM f s = .ok (xs.foldl g s) ∧ I (xs.foldl g s) := by
  induction xs generalizing s with
  | nil => exact ⟨rfl, hs⟩
  | cons x xs ih =>
    obtain ⟨hx, hI⟩ := hstep s hs x List.mem_cons_self
    have htail := ih (fun s hs y hy => hstep s hs y (List.mem_cons_of_mem x hy)) hI
    rw [foldlM_cons_eq_ok, List.foldl_cons]
    exact ⟨⟨g s x, hx, htail.1⟩, htail.2⟩

/-- A loop whose steps commute with a map of the state commutes with it. -/
lemma foldlM_map {f : σ → α → Except ε σ} {g : σ → σ}
    (hstep : ∀ s x, f (g s) x = (f s x).map g) (s : σ) (xs : List α) :
    xs.foldlM f (g s) = (xs.foldlM f s).map g := by
  induction xs generalizing s with
  | nil => rfl
  | cons x xs ih =>
    rw [List.foldlM_cons, List.foldlM_cons, hstep]
    cases f s x with
    | error e => rfl
    | ok t => exact ih t

/-! ### Errors -/

/-- Every error of the computation is one of `E`. -/
def Raises (E : ε → Prop) (x : Except ε α) : Prop := ∀ e, x = .error e → E e

lemma raises_ok (E : ε → Prop) (a : α) : Raises E (.ok a) := by
  intro e h
  cases h

lemma raises_error {E : ε → Prop} {e : ε} (h : E e) : Raises E (.error e : Except ε α) := by
  intro e' he
  cases he
  exact h

lemma raises_mapError {E : ε' → Prop} {f : ε → ε'} (hf : ∀ e, E (f e)) (x : Except ε α) :
    Raises E (x.mapError f) := by
  cases x with
  | error e => exact raises_error (hf e)
  | ok a => exact raises_ok E a

end Except
