import Mathlib.Tactic
import Mathlib.Data.List.Basic

/-!
# Prefix codes

A prefix code writes each symbol as a non-empty word that can be read off the front of
any stream in exactly one way. This file develops what a stream of such words determines:
the symbols of a stream are unique, every stream has a unique longest prefix of symbols
accepted by a reader, and a cut through a stream either falls between two words or leaves
an incomplete word that no longer parses.
-/

universe u v

/-- Words over `α` for the symbols `φ`, with a reader that takes one word off a stream. -/
structure PrefixCode (φ : Type u) (α : Type v) where
  encode : φ → List α
  take : List α → Option (φ × List α)
  take_encode : ∀ f rest, take (encode f ++ rest) = some (f, rest)
  encode_take : ∀ s f rest, take s = some (f, rest) → encode f ++ rest = s
  encode_ne_nil : ∀ f, encode f ≠ []

namespace PrefixCode

variable {φ : Type u} {α : Type v} (C : PrefixCode φ α)

/-- The words of a list of symbols, one after the other. -/
def stream (fs : List φ) : List α := (fs.map C.encode).flatten

@[simp] lemma stream_nil : C.stream [] = [] := rfl

@[simp] lemma stream_cons (f : φ) (fs : List φ) :
    C.stream (f :: fs) = C.encode f ++ C.stream fs := rfl

@[simp] lemma stream_append (fs gs : List φ) :
    C.stream (fs ++ gs) = C.stream fs ++ C.stream gs := by
  simp [stream]

@[simp] lemma stream_eq_nil {fs : List φ} : C.stream fs = [] ↔ fs = [] := by
  cases fs with
  | nil => simp
  | cons f fs => simp [C.encode_ne_nil]

@[simp] lemma take_nil : C.take [] = none := by
  cases h : C.take [] with
  | none => rfl
  | some p =>
    have hp := C.encode_take [] p.1 p.2 h
    exact absurd (List.append_eq_nil_iff.mp hp).1 (C.encode_ne_nil p.1)

lemma encode_append_inj {f g : φ} {r t : List α} (h : C.encode f ++ r = C.encode g ++ t) :
    f = g ∧ r = t := by
  have hf := C.take_encode f r
  rw [h, C.take_encode g t] at hf
  simpa [eq_comm] using hf

lemma take_length_lt {s : List α} {f : φ} {rest : List α} (h : C.take s = some (f, rest)) :
    rest.length < s.length := by
  have hs := congrArg List.length (C.encode_take s f rest h)
  have hpos := List.length_pos_of_ne_nil (C.encode_ne_nil f)
  rw [List.length_append] at hs
  omega

/-- An incomplete word does not parse. -/
lemma take_eq_none_of_cut {f : φ} {c t : List α} (hc : C.encode f = c ++ t) (ht : t ≠ []) :
    C.take c = none := by
  cases h : C.take c with
  | none => rfl
  | some p =>
    have hp := C.encode_take c p.1 p.2 h
    have hsame : C.encode f ++ [] = C.encode p.1 ++ (p.2 ++ t) := by
      rw [List.append_nil, hc, ← hp, List.append_assoc]
    have hnil := (C.encode_append_inj hsame).2
    exact absurd (List.append_eq_nil_iff.mp hnil.symm).2 ht

/-! ### The longest accepted prefix -/

/-- A reader that accepts the symbols `good` stops at the front of `r`. -/
def Halts (good : φ → Prop) (r : List α) : Prop :=
  ∀ f rest, C.take r = some (f, rest) → ¬good f

lemma halts_of_take_eq_none {good : φ → Prop} {r : List α} (h : C.take r = none) :
    C.Halts good r := by
  intro f rest hf
  rw [h] at hf
  exact absurd hf (by simp)

@[simp] lemma halts_nil (good : φ → Prop) : C.Halts good [] :=
  C.halts_of_take_eq_none C.take_nil

/-- Every stream splits into its accepted words and a rest where the reader stops. -/
theorem exists_longest (good : φ → Prop) (s : List α) :
    ∃ fs r, s = C.stream fs ++ r ∧ (∀ f ∈ fs, good f) ∧ C.Halts good r := by
  induction h : s.length using Nat.strong_induction_on generalizing s with
  | _ n ih =>
    by_cases hs : C.Halts good s
    · exact ⟨[], s, rfl, by simp, hs⟩
    · simp only [Halts, not_forall, not_not] at hs
      obtain ⟨f, rest, htake, hf⟩ := hs
      have hlt := C.take_length_lt htake
      obtain ⟨fs, r, hrest, hgood, hr⟩ := ih rest.length (by omega) rest rfl
      refine ⟨f :: fs, r, ?_, by simpa using ⟨hf, hgood⟩, hr⟩
      rw [stream_cons, List.append_assoc, ← hrest, C.encode_take s f rest htake]

/-- The accepted words and the rest are determined by the stream. -/
theorem longest_unique {good : φ → Prop} {fs gs : List φ} {r t : List α}
    (hfs : ∀ f ∈ fs, good f) (hgs : ∀ g ∈ gs, good g)
    (hr : C.Halts good r) (ht : C.Halts good t)
    (h : C.stream fs ++ r = C.stream gs ++ t) : fs = gs ∧ r = t := by
  induction fs generalizing gs with
  | nil =>
    cases gs with
    | nil => exact ⟨rfl, h⟩
    | cons g gs =>
      have hg : C.take r = some (g, C.stream gs ++ t) := by
        rw [show r = C.encode g ++ (C.stream gs ++ t) by simpa using h, C.take_encode]
      exact absurd (hgs g (by simp)) (hr g _ hg)
  | cons f fs ih =>
    cases gs with
    | nil =>
      have hf : C.take t = some (f, C.stream fs ++ r) := by
        rw [show t = C.encode f ++ (C.stream fs ++ r) by simpa using h.symm, C.take_encode]
      exact absurd (hfs f (by simp)) (ht f _ hf)
    | cons g gs =>
      have hcons : C.encode f ++ (C.stream fs ++ r) = C.encode g ++ (C.stream gs ++ t) := by
        simpa using h
      obtain ⟨rfl, hrest⟩ := C.encode_append_inj hcons
      obtain ⟨rfl, rfl⟩ := ih (fun x hx => hfs x (by simp [hx])) (fun x hx => hgs x (by simp [hx])) hrest
      exact ⟨rfl, rfl⟩

/-- A stream has one list of symbols. -/
theorem stream_injective : Function.Injective C.stream := by
  intro fs gs h
  have hr := C.halts_nil (fun _ : φ => True)
  exact (C.longest_unique (by simp) (by simp) hr hr (by rw [h])).1

/-! ### Cuts -/

/-- Position `k` of `s` lies between two words of `s`. -/
def IsBoundary (s : List α) (k : Nat) : Prop :=
  ∃ fs gs, s = C.stream fs ++ C.stream gs ∧ k = (C.stream fs).length

lemma isBoundary_split {fs : List φ} {k : Nat} (h : C.IsBoundary (C.stream fs) k) :
    ∃ a b, fs = a ++ b ∧ (C.stream fs).take k = C.stream a ∧ (C.stream fs).drop k = C.stream b := by
  obtain ⟨a, b, hs, rfl⟩ := h
  refine ⟨a, b, C.stream_injective (by simpa using hs), ?_, ?_⟩
  · rw [hs, List.take_left]
  · rw [hs, List.drop_left]

/-- A cut that is not a boundary leaves whole words and the proper front of one more. -/
theorem exists_cut_word (fs : List φ) (k : Nat) (hk : k ≤ (C.stream fs).length)
    (hb : ¬C.IsBoundary (C.stream fs) k) :
    ∃ a f b c t, fs = a ++ f :: b ∧ (C.stream fs).take k = C.stream a ++ c ∧
      C.encode f = c ++ t ∧ c ≠ [] ∧ t ≠ [] := by
  induction fs generalizing k with
  | nil =>
    have hk0 : k = 0 := by simpa using hk
    exact absurd ⟨[], [], rfl, hk0⟩ hb
  | cons f fs ih =>
    by_cases hlt : k < (C.encode f).length
    · have hk0 : k ≠ 0 := fun h => hb ⟨[], f :: fs, rfl, h⟩
      refine ⟨[], f, fs, (C.encode f).take k, (C.encode f).drop k, rfl, ?_, ?_, ?_, ?_⟩
      · rw [stream_cons, List.take_append_of_le_length hlt.le]
        rfl
      · rw [List.take_append_drop]
      · simp [hk0, C.encode_ne_nil]
      · simpa using hlt
    · obtain ⟨j, rfl⟩ := Nat.exists_eq_add_of_le (not_lt.mp hlt)
      have hj : j ≤ (C.stream fs).length := by
        rw [stream_cons, List.length_append] at hk
        omega
      have hbj : ¬C.IsBoundary (C.stream fs) j := by
        rintro ⟨a, b, hs, rfl⟩
        exact hb ⟨f :: a, b, by simp [hs], by simp⟩
      obtain ⟨a, g, b, c, t, rfl, htake, hg, hc, ht⟩ := ih j hj hbj
      refine ⟨f :: a, g, b, c, t, rfl, ?_, hg, hc, ht⟩
      rw [stream_cons, List.take_length_add_append, htake, stream_cons, List.append_assoc]

end PrefixCode
