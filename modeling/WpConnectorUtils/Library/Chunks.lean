import Mathlib.Tactic
import Mathlib.Data.List.Basic

/-!
# Chunks of a list

A list cut after every `n` elements: whole chunks, and a rest shorter than a chunk. This is the
only way to write it as lists of `n` elements followed by fewer, so a list that grows keeps its
whole chunks, and the next ones are those of the rest and what was added.
-/

universe u

namespace Chunks

variable {α : Type u}

/-- The whole chunks of `xs`. -/
def whole (n : Nat) (xs : List α) : List (List α) :=
  (List.range (xs.length / n)).map fun i => (xs.drop (i * n)).take n

/-- What lies beyond the last multiple of `n`. -/
def rest (n : Nat) (xs : List α) : List α := xs.drop (xs.length / n * n)

/-- The whole chunks, and the rest unless it is empty. -/
def chunks (n : Nat) (xs : List α) : List (List α) :=
  if (rest n xs).isEmpty then whole n xs else whole n xs ++ [rest n xs]

variable {n : Nat} {xs ys r : List α} {bs : List (List α)}

lemma whole_of_short (h : xs.length < n) : whole n xs = [] := by
  unfold whole
  rw [Nat.div_eq_of_lt h]
  rfl

lemma rest_of_short (h : xs.length < n) : rest n xs = xs := by
  unfold rest
  rw [Nat.div_eq_of_lt h, Nat.zero_mul, List.drop_zero]

lemma length_div_append {b : List α} (hn : 0 < n) (hb : b.length = n) (xs : List α) :
    (b ++ xs).length / n = xs.length / n + 1 := by
  rw [List.length_append, hb, Nat.add_div_left _ hn]

lemma drop_append {b : List α} (hb : b.length = n) (xs : List α) (i : Nat) :
    (b ++ xs).drop ((i + 1) * n) = xs.drop (i * n) := by
  have hsum : (i + 1) * n = b.length + i * n := by
    rw [hb]
    ring
  rw [hsum, List.drop_length_add_append]

lemma whole_append {b : List α} (hn : 0 < n) (hb : b.length = n) (xs : List α) :
    whole n (b ++ xs) = b :: whole n xs := by
  unfold whole
  rw [length_div_append hn hb, List.range_succ_eq_map, List.map_cons, List.map_map]
  congr 1
  · rw [Nat.zero_mul, List.drop_zero, List.take_left' hb]
  · apply List.map_congr_left
    intro i _
    exact congrArg (List.take n) (drop_append hb xs i)

lemma rest_append {b : List α} (hn : 0 < n) (hb : b.length = n) (xs : List α) :
    rest n (b ++ xs) = rest n xs := by
  unfold rest
  rw [length_div_append hn hb, drop_append hb]

/-- The whole chunks and the rest are the only cut into lists of `n` elements and fewer. -/
theorem cut_unique (hn : 0 < n) (hfull : ∀ b ∈ bs, b.length = n) (hshort : r.length < n) :
    whole n (bs.flatten ++ r) = bs ∧ rest n (bs.flatten ++ r) = r := by
  induction bs with
  | nil => exact ⟨whole_of_short hshort, rest_of_short hshort⟩
  | cons b bs ih =>
    rw [List.forall_mem_cons] at hfull
    obtain ⟨hwhole, hrest⟩ := ih hfull.2
    rw [List.flatten_cons, List.append_assoc, whole_append hn hfull.1, rest_append hn hfull.1, hwhole,
      hrest]
    exact ⟨rfl, rfl⟩

/-- Induction on a list by its chunks, from a list shorter than one. -/
@[elab_as_elim]
theorem chunk_induction (hn : 0 < n) {motive : List α → Prop}
    (short : ∀ xs, xs.length < n → motive xs)
    (append : ∀ b xs, b.length = n → motive xs → motive (b ++ xs)) (xs : List α) : motive xs := by
  induction h : xs.length using Nat.strong_induction_on generalizing xs with
  | _ m ih =>
    by_cases hshort : xs.length < n
    · exact short xs hshort
    · have hfront : (xs.take n).length = n := List.length_take_of_le (by omega)
      have hdrop : (xs.drop n).length < m := by
        rw [List.length_drop]
        omega
      rw [← List.take_append_drop n xs]
      exact append _ _ hfront (ih _ hdrop (xs.drop n) rfl)

/-- They are a cut. -/
theorem cut (hn : 0 < n) (xs : List α) :
    (whole n xs).flatten ++ rest n xs = xs ∧ (∀ b ∈ whole n xs, b.length = n) ∧
      (rest n xs).length < n := by
  induction xs using chunk_induction hn with
  | short xs hshort =>
    rw [whole_of_short hshort, rest_of_short hshort]
    exact ⟨rfl, by simp, hshort⟩
  | append b xs hb ih =>
    obtain ⟨hflat, hfull, hlt⟩ := ih
    rw [whole_append hn hb, rest_append hn hb]
    refine ⟨?_, ?_, hlt⟩
    · rw [List.flatten_cons, List.append_assoc, hflat]
    · rw [List.forall_mem_cons]
      exact ⟨hb, hfull⟩

/-- A list that grows keeps its whole chunks. -/
theorem cut_append (hn : 0 < n) (h : rest n xs ++ ys = bs.flatten ++ r)
    (hfull : ∀ b ∈ bs, b.length = n) (hshort : r.length < n) :
    whole n (xs ++ ys) = whole n xs ++ bs ∧ rest n (xs ++ ys) = r := by
  obtain ⟨hflat, hwhole, -⟩ := cut hn xs
  have hsplit : xs ++ ys = (whole n xs ++ bs).flatten ++ r := by
    rw [List.flatten_append, List.append_assoc, ← h, ← List.append_assoc, hflat]
  rw [hsplit]
  apply cut_unique hn _ hshort
  rw [List.forall_mem_append]
  exact ⟨hwhole, hfull⟩

lemma chunks_append {b : List α} (hn : 0 < n) (hb : b.length = n) (xs : List α) :
    chunks n (b ++ xs) = b :: chunks n xs := by
  unfold chunks
  rw [whole_append hn hb, rest_append hn hb]
  split <;> rfl

lemma chunks_of_short (hne : xs ≠ []) (h : xs.length < n) : chunks n xs = [xs] := by
  unfold chunks
  rw [whole_of_short h, rest_of_short h, if_neg (by simpa using hne), List.nil_append]

@[simp] lemma chunks_nil : chunks n ([] : List α) = [] := by
  simp [chunks, rest, whole]

end Chunks
