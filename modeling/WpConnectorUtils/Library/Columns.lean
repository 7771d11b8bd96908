import Mathlib.Tactic
import Mathlib.Data.List.Basic
import Mathlib.Logic.Function.Basic

/-!
# Tables held by columns

Columns are lists filed under keys and grow by one row at a time: every key occurrence of the
table's header pushes the row's value for that key. After any number of rows a column holds the
rows' values, each as often as the key occurs in the header. The second half reads a list of
columns by rows.
-/

universe u v w

/-- Lists filed under keys. -/
abbrev KeyedColumns (κ : Type u) (α : Type v) := κ → Option (List α)

namespace KeyedColumns

variable {κ : Type u} {α : Type v} [DecidableEq κ]

def empty : KeyedColumns κ α := fun _ => none

def insert (m : KeyedColumns κ α) (k : κ) (xs : List α) : KeyedColumns κ α :=
  Function.update m k (some xs)

/-- Appends a value to a column, if there is one under the key. -/
def push (m : KeyedColumns κ α) (k : κ) (a : α) : KeyedColumns κ α :=
  Function.update m k ((m k).map (· ++ [a]))

/-- Appends a value to a column that must exist. -/
def push? (m : KeyedColumns κ α) (k : κ) (a : α) : Option (KeyedColumns κ α) :=
  (m k).map fun xs => m.insert k (xs ++ [a])

/-- Every key of the header has a column. -/
def Covers (m : KeyedColumns κ α) (header : List κ) : Prop := ∀ k ∈ header, (m k).isSome

lemma push?_eq_some {m : KeyedColumns κ α} {k : κ} (h : (m k).isSome) (a : α) :
    m.push? k a = some (m.push k a) := by
  obtain ⟨xs, hxs⟩ := Option.isSome_iff_exists.mp h
  simp [push?, push, insert, hxs]

lemma isSome_push (m : KeyedColumns κ α) (k j : κ) (a : α) : (m.push k a j).isSome = (m j).isSome := by
  unfold push
  by_cases hj : j = k
  · rw [hj, Function.update_self, Option.isSome_map]
  · rw [Function.update_of_ne hj]

lemma covers_push {m : KeyedColumns κ α} {header : List κ} (h : m.Covers header) (k : κ) (a : α) :
    (m.push k a).Covers header := by
  intro j hj
  rw [isSome_push]
  exact h j hj

/-- An empty column for every key. -/
def start (header : List κ) : KeyedColumns κ α := header.foldl (fun m k => m.insert k []) empty

lemma foldl_insert_nil (header : List κ) (m : KeyedColumns κ α) (k : κ) :
    header.foldl (fun m k => m.insert k []) m k = if k ∈ header then some [] else m k := by
  induction header generalizing m with
  | nil => simp
  | cons j header ih =>
    rw [List.foldl_cons, ih]
    by_cases hk : k ∈ header
    · rw [if_pos hk, if_pos (List.mem_cons_of_mem j hk)]
    · unfold insert
      by_cases hj : k = j <;> simp [hk, hj]

lemma start_apply (header : List κ) (k : κ) :
    (start header : KeyedColumns κ α) k = if k ∈ header then some [] else none :=
  foldl_insert_nil header empty k

lemma covers_start (header : List κ) : (start header : KeyedColumns κ α).Covers header := by
  intro k hk
  rw [start_apply, if_pos hk]
  rfl

/-- Pushes one row. -/
def pushRow (header : List κ) (m : KeyedColumns κ α) (row : κ → α) : KeyedColumns κ α :=
  header.foldl (fun m k => m.push k (row k)) m

lemma pushRow_apply (header : List κ) (m : KeyedColumns κ α) (row : κ → α) (k : κ) :
    m.pushRow header row k = (m k).map (· ++ List.replicate (header.count k) (row k)) := by
  unfold pushRow
  induction header generalizing m with
  | nil => simp
  | cons j header ih =>
    rw [List.foldl_cons, ih]
    unfold push
    by_cases hj : k = j
    · rw [hj, Function.update_self, Option.map_map, List.count_cons_self, List.replicate_succ]
      congr 1
      funext xs
      simp
    · rw [Function.update_of_ne hj, List.count_cons_of_ne (Ne.symm hj)]

lemma covers_pushRow {m : KeyedColumns κ α} {header : List κ} (h : m.Covers header)
    (row : κ → α) : (m.pushRow header row).Covers header := by
  intro k hk
  rw [pushRow_apply, Option.isSome_map]
  exact h k hk

/-- After the rows, a column holds every row's value as often as its key occurs in the header. -/
theorem foldl_pushRow_apply (header : List κ) (rows : List (κ → α)) (m : KeyedColumns κ α) (k : κ) :
    rows.foldl (pushRow header) m k =
      (m k).map (· ++ rows.flatMap fun row => List.replicate (header.count k) (row k)) := by
  induction rows generalizing m with
  | nil => simp
  | cons row rows ih =>
    rw [List.foldl_cons, ih, pushRow_apply, Option.map_map]
    congr 1
    funext xs
    simp

end KeyedColumns

/-- The rows of `n` cells each of `columns`, with `d` where a column is shorter. -/
def rowsOf {α : Type u} (d : α) (n : Nat) (columns : List (List α)) : List (List α) :=
  (List.range n).map fun i => columns.map fun column => column[i]?.getD d

section Rows

variable {α : Type u} {β : Type v} {γ : Type w} (d : γ)

@[simp] lemma length_rowsOf (n : Nat) (columns : List (List γ)) : (rowsOf d n columns).length = n := by
  simp [rowsOf]

/-- Columns computed from the same records read by rows give one row for each record. -/
theorem rowsOf_map (fields : List α) (records : List β) (cell : α → β → γ) :
    rowsOf d records.length (fields.map fun f => records.map (cell f)) =
      records.map fun r => fields.map fun f => cell f r := by
  apply List.ext_getElem
  · simp
  · intro i hi _
    have hrecords : i < records.length := by simpa using hi
    simp [rowsOf, hrecords]

/-- Columns that continue others give the rows of both. -/
theorem rowsOf_append {m n : Nat} {top bottom : List (List γ)}
    (htop : ∀ column ∈ top, column.length = m) (hlength : top.length = bottom.length) :
    rowsOf d (m + n) (List.zipWith (· ++ ·) top bottom) = rowsOf d m top ++ rowsOf d n bottom := by
  have hm : ∀ i (hi : i < top.length), top[i].length = m := by
    intro i hi
    exact htop _ (List.getElem_mem hi)
  unfold rowsOf
  rw [List.range_add, List.map_append, List.map_map]
  congr 1
  · apply List.map_congr_left
    intro j hj
    have hjm : j < m := List.mem_range.mp hj
    apply List.ext_getElem
    · simp [hlength]
    · intro i hi htop'
      have hi' : i < top.length := by simpa using htop'
      simp [List.getElem?_append, hm i hi', hjm]
  · apply List.map_congr_left
    intro j _
    apply List.ext_getElem
    · simp [hlength]
    · intro i hi hbottom
      have hi' : i < top.length := by
        rw [hlength]
        simpa using hbottom
      simp [List.getElem?_append, hm i hi']

end Rows
