import WpConnectorUtils.Ndjson.Contract
import WpConnectorUtils.Ndjson.Numerals

/-!
# Epoch timestamps

The number of digits of an epoch timestamp tells its unit. Integers take the exact path of
`epoch_int_nanos`; the ones that it refuses go through floating point.
-/

namespace WpConnectorUtils.Ndjson
open Arrow Binary64

/-! ### The exact path -/

/-- Nanoseconds in the unit of a timestamp of size `a`. -/
def unitMultiplier (a : Nat) : Nat :=
  if a ≤ 9999999999 then 10 ^ 9
  else if a ≤ 9999999999999 then 10 ^ 6
  else if a ≤ 9999999999999999 then 10 ^ 3
  else 1

lemma toInt_epochUnitMultiplier {abs : Int64} {a : Nat} (h : abs.toInt = a) :
    (epochUnitMultiplier abs).toInt = unitMultiplier a := by
  have h0 : (0 : Int64).toInt = 0 := rfl
  have h1 : (9999999999 : Int64).toInt = 9999999999 := rfl
  have h2 : (10000000000 : Int64).toInt = 10000000000 := rfl
  have h3 : (9999999999999 : Int64).toInt = 9999999999999 := rfl
  have h4 : (10000000000000 : Int64).toInt = 10000000000000 := rfl
  have h5 : (9999999999999999 : Int64).toInt = 9999999999999999 := rfl
  unfold epochUnitMultiplier unitMultiplier
  simp only [Int64.le_iff_toInt_le, h, h0, h1, h2, h3, h4, h5]
  by_cases hs : a ≤ 9999999999
  · rw [if_pos (by omega), if_pos hs]
    rfl
  rw [if_neg (by omega), if_neg hs]
  by_cases hms : a ≤ 9999999999999
  · rw [if_pos (by omega), if_pos hms]
    rfl
  rw [if_neg (by omega), if_neg hms]
  by_cases hus : a ≤ 9999999999999999
  · rw [if_pos (by omega), if_pos hus]
    rfl
  · rw [if_neg (by omega), if_neg hus]
    rfl

lemma i64TryFrom_of_mem {n : Int} (hlow : -2 ^ 63 ≤ n) (hhigh : n < 2 ^ 63) :
    i64TryFrom n = some (Int64.ofInt n) := by
  unfold i64TryFrom
  rw [Int64.toInt_minValue, Int64.toInt_maxValue, if_pos (by omega)]

lemma i64TryFrom_eq_none {n : Int} (h : n < -2 ^ 63 ∨ 2 ^ 63 ≤ n) : i64TryFrom n = none := by
  unfold i64TryFrom
  rw [Int64.toInt_minValue, Int64.toInt_maxValue, if_neg (by omega)]

lemma i64TryFrom_eq_some {n : Int} {x : Int64} : i64TryFrom n = some x ↔ x.toInt = n := by
  constructor
  · intro h
    by_cases hn : -2 ^ 63 ≤ n ∧ n < 2 ^ 63
    · rw [i64TryFrom_of_mem hn.1 hn.2] at h
      cases h
      exact Int64.toInt_ofInt_of_le hn.1 hn.2
    · rw [i64TryFrom_eq_none (by omega)] at h
      cases h
  · rintro rfl
    rw [i64TryFrom_of_mem x.le_toInt x.toInt_lt, Int64.ofInt_toInt]

/-- The size of the least `Int64` has no `Int64`; the greatest one takes its place, and both are
counted in nanoseconds. -/
lemma toInt_checkedAbs (raw : Int64) : ∃ a : Nat, ((checkedAbs raw).getD Int64.maxValue).toInt = a ∧
    unitMultiplier a = unitMultiplier raw.toInt.natAbs := by
  unfold checkedAbs
  by_cases hmin : raw = Int64.minValue
  · subst hmin
    exact ⟨2 ^ 63 - 1, rfl, rfl⟩
  · refine ⟨raw.toInt.natAbs, ?_, rfl⟩
    have hbits : raw.toBitVec ≠ BitVec.intMin 64 := by
      intro heq
      apply hmin
      apply Int64.toBitVec.inj
      rw [heq]
      rfl
    rw [if_neg hmin]
    exact BitVec.toInt_abs_eq_natAbs_of_ne_intMin hbits

/-- `epoch_int_nanos` is exact: the product when it fits. -/
theorem epochIntNanos_eq (raw : Int64) :
    epochIntNanos raw = i64TryFrom (raw.toInt * unitMultiplier raw.toInt.natAbs) := by
  obtain ⟨a, habs, hunit⟩ := toInt_checkedAbs raw
  unfold epochIntNanos
  dsimp only
  rw [toInt_epochUnitMultiplier habs, hunit]

/-! ### The four units -/

/-- An instant of at least `10 ^ 16` nanoseconds, counted in a larger unit, falls in the range of
that unit. -/
lemma unitMultiplier_div {a unit : Nat} (hlow : 10 ^ 16 ≤ a) (hhigh : a ≤ 2 ^ 63)
    (hunit : unit ∈ [10 ^ 3, 10 ^ 6, 10 ^ 9]) : unitMultiplier (a / unit) = unit := by
  simp only [List.mem_cons, List.not_mem_nil, or_false] at hunit
  unfold unitMultiplier
  rcases hunit with rfl | rfl | rfl
  · rw [if_neg (by omega), if_neg (by omega), if_pos (by omega)]
  · rw [if_neg (by omega), if_pos (by omega)]
  · rw [if_pos (by omega)]

lemma epochIntNanos_div {instant unit : Int64} (hlarge : 10 ^ 16 ≤ instant.toInt.natAbs)
    (hunit : unit ∈ [1000, 1000000, 1000000000]) :
    (epochIntNanos (instant / unit)).map Int64.toInt =
      some (instant.toInt.tdiv unit.toInt * unit.toInt) := by
  have hsizes : unit ≠ -1 ∧ unit.toInt = unit.toInt.natAbs ∧
      unit.toInt.natAbs ∈ [10 ^ 3, 10 ^ 6, 10 ^ 9] := by
    simp only [List.mem_cons, List.not_mem_nil, or_false] at hunit
    rcases hunit with rfl | rfl | rfl <;> exact ⟨by decide, by decide, by decide⟩
  obtain ⟨hne, habs, hmem⟩ := hsizes
  have hlow := instant.le_toInt
  have hhigh := instant.toInt_lt
  have hquot : (instant / unit).toInt = instant.toInt.tdiv unit.toInt :=
    Int64.toInt_div_of_ne_right _ _ hne
  have hsize : unitMultiplier (instant / unit).toInt.natAbs = unit.toInt.natAbs := by
    rw [hquot, Int.natAbs_tdiv]
    exact unitMultiplier_div hlarge (by omega) hmem
  have hprod : (instant.toInt.tdiv unit.toInt * unit.toInt).natAbs ≤ instant.toInt.natAbs := by
    rw [Int.natAbs_mul, Int.natAbs_tdiv]
    exact Nat.div_mul_le_self _ _
  have hbelow : instant.toInt < 0 → instant.toInt.tdiv unit.toInt * unit.toInt ≤ 0 := by
    intro hneg
    have hflip := Int.tdiv_nonneg (a := -instant.toInt) (b := unit.toInt) (by omega) (by omega)
    rw [Int.neg_tdiv] at hflip
    exact Int.mul_nonpos_of_nonpos_of_nonneg (by omega) (by omega)
  rw [epochIntNanos_eq, hsize, ← habs, hquot, i64TryFrom_of_mem (by omega) (by omega),
    Option.map_some, Int64.toInt_ofInt_of_le (by omega) (by omega)]

/-- From `10 ^ 16` nanoseconds on, an instant reads the same in all four units, up to what the
larger unit truncates; below, it is not read as nanoseconds. -/
theorem epoch_units_agree (instant : Int64) :
    (10 ^ 16 ≤ instant.toInt.natAbs → epochIntNanos instant = some instant ∧
      ∀ unit ∈ [1000, 1000000, 1000000000], (epochIntNanos (instant / unit)).map Int64.toInt =
        some (instant.toInt.tdiv unit.toInt * unit.toInt)) ∧
    (instant ≠ 0 → instant.toInt.natAbs < 10 ^ 16 → epochIntNanos instant ≠ some instant) := by
  constructor
  · intro hlarge
    constructor
    · have hone : unitMultiplier instant.toInt.natAbs = 1 := by
        unfold unitMultiplier
        rw [if_neg (by omega), if_neg (by omega), if_neg (by omega)]
      rw [epochIntNanos_eq, hone, i64TryFrom_eq_some]
      omega
    · intro unit hunit
      exact epochIntNanos_div hlarge hunit
  · intro hne hsmall heq
    rw [epochIntNanos_eq, i64TryFrom_eq_some] at heq
    have hzero : instant.toInt ≠ 0 := by
      intro h
      exact hne (Int64.toInt_inj.mp h)
    have hunit : (1 : Int) < unitMultiplier instant.toInt.natAbs := by
      unfold unitMultiplier
      split_ifs <;> omega
    have hone : (unitMultiplier instant.toInt.natAbs : Int) = 1 :=
      Int.eq_one_of_mul_eq_self_right hzero heq.symm
    omega

/-- The least instant, and one second after the epoch. -/
theorem epoch_units_agree_sample :
    epochIntNanos Int64.minValue = some Int64.minValue ∧
      (epochIntNanos (Int64.minValue / 1000)).map Int64.toInt = some (-9223372036854775000) ∧
      epochIntNanos 1000000000 ≠ some 1000000000 := by
  have hmin := epoch_units_agree Int64.minValue
  have hsecond := epoch_units_agree 1000000000
  exact ⟨(hmin.1 (by decide)).1, (hmin.1 (by decide)).2 1000 (by decide),
    hsecond.2 (by decide) (by decide)⟩

/-! ### The floating-point path -/

section Float

open Float.Model (UnpackedFloat)
open Float.Model.UnpackedFloat (Sign)

lemma half_up_div (a : Nat) {half : Nat} (hpos : 0 < half) :
    (2 * (a * half) + half) / (2 * half) = a := by
  have hsplit : 2 * (a * half) + half = half + a * (2 * half) := by ring
  rw [hsplit, Nat.add_mul_div_right _ _ (by omega), Nat.div_eq_of_lt (by omega), Nat.zero_add]

/-- An integer is its own nearest integer. -/
lemma isInteger_roundF64 {x : F64} {s : Sign} {a : Nat} (h : IsInteger x s a) (ha : a < 2 ^ 128) :
    IsInteger (roundF64 x) s a := by
  have hne : a ≠ 0 := Represents.ne_zero h
  obtain ⟨m, k, hm, hx, -, hhigh, hval⟩ := id h
  unfold roundF64
  rw [hx]
  dsimp only
  by_cases hexp : 0 ≤ (k : Int) - 52 + 0
  · rw [if_pos hexp]
    exact h
  · have hshift : (-((k : Int) - 52 + 0)).toNat = 52 - k := by omega
    have hpow : 2 ^ (52 - k) * 2 ^ k = 2 ^ 52 := by
      rw [← Nat.pow_add, Nat.sub_add_cancel (by omega)]
    have hmantissa : m = a * 2 ^ (52 - k) := by
      apply Nat.eq_of_mul_eq_mul_right (show 0 < 2 ^ k by positivity)
      rw [hval, Nat.mul_assoc, hpow]
    have hdiv : (2 * (m : Int) + 2 ^ (52 - k)) / (2 * 2 ^ (52 - k)) = a := by
      rw [hmantissa]
      exact_mod_cast half_up_div a (Nat.two_pow_pos (52 - k))
    have hsmall : a < 2 ^ 53 := by
      calc a = a * 1 := (Nat.mul_one a).symm
        _ ≤ a * 2 ^ (52 - k) := Nat.mul_le_mul_left a (Nat.one_le_two_pow)
        _ < 2 ^ 53 := by rwa [← hmantissa]
    have hround : roundNat a = a := roundNat_of_lt hsmall
    have hnorm := represents_normalize (n := s.apply a) (by cases s <;> simp [Sign.apply, hne]) s
    rw [signOf_apply s hne, natAbs_apply, hround] at hnorm
    rw [if_neg hexp, hshift, hdiv]
    exact isInteger_pack hnorm ha

/-- The saturated size of a number tells its unit. -/
lemma toInt_epochUnitMultiplier_clamp (a : Nat) :
    (epochUnitMultiplier (Int64.ofIntClamp a)).toInt = unitMultiplier a := by
  by_cases ha : a < 2 ^ 63
  · apply toInt_epochUnitMultiplier
    apply Int64.toInt_ofIntClamp
    · rw [Int64.toInt_minValue]
      omega
    · rw [Int64.toInt_maxValue]
      omega
  · have hmax : Int64.ofIntClamp a = Int64.maxValue := by
      unfold Int64.ofIntClamp
      rw [dif_pos (by rw [Int64.toInt_minValue]; omega), dif_neg (by rw [Int64.toInt_maxValue]; omega)]
    have hone : unitMultiplier a = unitMultiplier (2 ^ 63 - 1) := by
      unfold unitMultiplier
      rw [if_neg (by omega), if_neg (by omega), if_neg (by omega)]
      rfl
    rw [hmax, hone]
    rfl

/-- The size of the product that the floating-point path computes for an integer of size `a`. -/
def floatProduct (a : Nat) : Nat := roundNat (roundNat a * unitMultiplier (roundNat a))

lemma unitMultiplier_pos (a : Nat) : 0 < unitMultiplier a ∧ unitMultiplier a ≤ 10 ^ 9 := by
  unfold unitMultiplier
  split_ifs <;> omega

lemma isInteger_unitMultiplier {unit : Int64} {a : Nat} (h : unit.toInt = unitMultiplier a) :
    IsInteger (Float.Model.ofInt64 unit) .positive (unitMultiplier a) := by
  have hunit := unitMultiplier_pos a
  have hsign : signOf (unitMultiplier a : Int) = .positive := if_neg (by omega)
  have hround : roundNat (unitMultiplier a) = unitMultiplier a := by
    unfold unitMultiplier
    split_ifs <;> exact roundNat_of_log2_le (by decide)
  have hint := isInteger_ofInt (n := unitMultiplier a) (by omega) (by omega)
  rw [hsign, Int.natAbs_natCast, hround, ← h] at hint
  exact hint

lemma isInteger_minValue : IsInteger (Float.Model.ofInt64 Int64.minValue) .negative (2 ^ 63) := by
  have hint := isInteger_ofInt (n := -2 ^ 63) (by decide) (by decide)
  have habs : (-2 ^ 63 : Int).natAbs = 2 ^ 63 := by decide
  rw [habs, roundNat_two_pow] at hint
  exact hint

/-- The greatest `Int64` is rounded up. -/
lemma isInteger_maxValue : IsInteger (Float.Model.ofInt64 Int64.maxValue) .positive (2 ^ 63) := by
  have hint := isInteger_ofInt (n := 2 ^ 63 - 1) (by decide) (by decide)
  have hround : roundNat (2 ^ 63 - 1 : Int).natAbs = 2 ^ 63 := by decide
  rw [hround] at hint
  exact hint

/-- The guard of `epoch_float_nanos` lets `± 2 ^ 63` pass. -/
lemma guard_iff {nanos : F64} {s : Sign} {p : Nat} (h : IsInteger nanos s p) :
    (¬nanos.isFinite ∨ nanos < Float.Model.ofInt64 Int64.minValue ∨
      Float.Model.ofInt64 Int64.maxValue < nanos) ↔ 2 ^ 63 < p := by
  rw [h.lt_iff isInteger_minValue, isInteger_maxValue.lt_iff h, h.isFinite]
  cases s with
  | positive =>
    simp only [Sign.apply, not_true_eq_false, false_or]
    push_cast
    omega
  | negative =>
    simp only [Sign.apply, not_true_eq_false, false_or]
    push_cast
    omega

lemma isInteger_product {n : Int} (hn : n ≠ 0) (hle : n.natAbs ≤ 2 ^ 64) :
    IsInteger (Float.Model.ofInt n * Float.Model.ofInt64
      (epochUnitMultiplier (Float.Model.ofInt n).abs.toInt64)) (signOf n) (floatProduct n.natAbs) ∧
    floatProduct n.natAbs < 2 ^ 128 := by
  have hsize : roundNat n.natAbs ≤ 2 ^ 64 := by
    rw [← roundNat_two_pow 64]
    exact roundNat_mono hle
  have hprod : roundNat n.natAbs * unitMultiplier (roundNat n.natAbs) < 2 ^ 127 := by
    calc roundNat n.natAbs * unitMultiplier (roundNat n.natAbs) ≤ 2 ^ 64 * 10 ^ 9 :=
          Nat.mul_le_mul hsize (unitMultiplier_pos _).2
      _ < 2 ^ 127 := by norm_num
  have hraw : IsInteger (Float.Model.ofInt n) (signOf n) (roundNat n.natAbs) :=
    isInteger_ofInt hn (by omega)
  have hunit : (epochUnitMultiplier (Float.Model.ofInt n).abs.toInt64).toInt =
      unitMultiplier (roundNat n.natAbs) := by
    rw [(hraw.abs (by omega)).toInt64]
    exact toInt_epochUnitMultiplier_clamp _
  have hnanos := hraw.mul (isInteger_unitMultiplier hunit) hprod
  have hsign : signOf n * .positive = signOf n := by
    cases signOf n <;> rfl
  rw [hsign] at hnanos
  exact ⟨hnanos, roundNat_lt hprod⟩

/-- `epoch_float_nanos` of an integer: the cast of a product that passes the guard saturates. -/
theorem epochFloatNanos_ofInt {n : Int} (hn : n ≠ 0) (hle : n.natAbs ≤ 2 ^ 64) :
    epochFloatNanos (Float.Model.ofInt n) =
      if floatProduct n.natAbs ≤ 2 ^ 63 then
        some (Int64.ofIntClamp ((signOf n).apply (floatProduct n.natAbs)))
      else none := by
  have hraw : IsInteger (Float.Model.ofInt n) (signOf n) (roundNat n.natAbs) :=
    isInteger_ofInt hn (by omega)
  obtain ⟨hnanos, hlt⟩ := isInteger_product hn hle
  unfold epochFloatNanos
  rw [if_neg (by simp [hraw.isFinite])]
  dsimp only
  by_cases hpass : floatProduct n.natAbs ≤ 2 ^ 63
  · have hguard := (guard_iff hnanos).not.mpr (by omega)
    rw [if_neg hguard, if_pos hpass, (isInteger_roundF64 hnanos hlt).toInt64]
  · have hguard := (guard_iff hnanos).mpr (by omega)
    rw [if_pos hguard, if_neg hpass]

end Float

/-! ### Integers in both forms -/

/-- The exact product, when it is an `Int64`. -/
def exactNanos (n : Int) : Option Int64 := i64TryFrom (n * unitMultiplier n.natAbs)

/-- The integers whose exact product does not fit, and which the floating-point path nevertheless
turns into an instant: sizes whose product is rounded to `2 ^ 63`, the size that is rounded into
the range of nanoseconds, and what is rounded to `2 ^ 63` itself. -/
def Revived (n : Int) : Prop :=
  n.natAbs ∈ [9223372036854776, 9223372036854777, 9999999999999999] ∨
    2 ^ 63 ≤ n ∧ n ≤ 2 ^ 63 + 1024

instance (n : Int) : Decidable (Revived n) := by
  unfold Revived
  infer_instance

lemma bind_epochIntNanos (n : Int) : (i64TryFrom n).bind epochIntNanos = exactNanos n := by
  have hunit : (1 : Int) ≤ unitMultiplier n.natAbs := by
    have hpos := (unitMultiplier_pos n.natAbs).1
    omega
  unfold exactNanos
  rcases lt_or_ge n (-2 ^ 63) with hlow | hlow
  · have hle : n * unitMultiplier n.natAbs ≤ n * 1 := Int.mul_le_mul_of_nonpos_left (by omega) hunit
    rw [i64TryFrom_eq_none (.inl hlow), i64TryFrom_eq_none (by omega)]
    rfl
  rcases lt_or_ge n (2 ^ 63) with hhigh | hhigh
  · rw [i64TryFrom_of_mem hlow hhigh, Option.bind_some, epochIntNanos_eq,
      Int64.toInt_ofInt_of_le hlow hhigh]
  · have hle : n * 1 ≤ n * unitMultiplier n.natAbs := Int.mul_le_mul_of_nonneg_left hunit (by omega)
    rw [i64TryFrom_eq_none (.inr hhigh), i64TryFrom_eq_none (by omega)]
    rfl

lemma le_floatProduct {a low unit : Nat} (hlow : low ≤ roundNat a)
    (hunit : unitMultiplier (roundNat a) = unit) : roundNat (low * unit) ≤ floatProduct a := by
  unfold floatProduct
  rw [hunit]
  exact roundNat_mono (Nat.mul_le_mul_right unit hlow)

/-- A size beyond the revived ones stays out of range in floating point. -/
lemma lt_floatProduct {a : Nat} (hout : 2 ^ 63 ≤ a * unitMultiplier a)
    (hbig : a < 2 ^ 63 ∨ 2 ^ 63 + 1024 < a)
    (hnot : a ∉ [9223372036854776, 9223372036854777, 9999999999999999]) :
    2 ^ 63 < floatProduct a := by
  simp only [List.mem_cons, List.not_mem_nil, or_false, not_or] at hnot
  unfold unitMultiplier at hout
  by_cases hs : a ≤ 9999999999
  · rw [if_pos hs] at hout
    have hround : roundNat a = a := roundNat_of_lt (by omega)
    have hunit : unitMultiplier (roundNat a) = 10 ^ 9 := by
      rw [hround, unitMultiplier, if_pos hs]
    have hle : roundNat (9223372037 * 10 ^ 9) ≤ floatProduct a := le_floatProduct (by omega) hunit
    have hlow : 2 ^ 63 < roundNat (9223372037 * 10 ^ 9) := by decide
    omega
  rw [if_neg hs] at hout
  by_cases hms : a ≤ 9999999999999
  · rw [if_pos hms] at hout
    have hround : roundNat a = a := roundNat_of_lt (by omega)
    have hunit : unitMultiplier (roundNat a) = 10 ^ 6 := by
      rw [hround, unitMultiplier, if_neg hs, if_pos hms]
    have hle : roundNat (9223372036855 * 10 ^ 6) ≤ floatProduct a := le_floatProduct (by omega) hunit
    have hlow : 2 ^ 63 < roundNat (9223372036855 * 10 ^ 6) := by decide
    omega
  rw [if_neg hms] at hout
  by_cases hus : a ≤ 9999999999999999
  · rw [if_pos hus] at hout
    have hmin : roundNat 9223372036854778 ≤ roundNat a := roundNat_mono (by omega)
    have hmax : roundNat a ≤ roundNat 9999999999999998 := roundNat_mono (by omega)
    have hminEq : roundNat 9223372036854778 = 9223372036854778 := by decide
    have hmaxEq : roundNat 9999999999999998 = 9999999999999998 := by decide
    have hunit : unitMultiplier (roundNat a) = 10 ^ 3 := by
      rw [unitMultiplier, if_neg (by omega), if_neg (by omega), if_pos (by omega)]
    have hle : roundNat (9223372036854778 * 10 ^ 3) ≤ floatProduct a :=
      le_floatProduct (by omega) hunit
    have hlow : 2 ^ 63 < roundNat (9223372036854778 * 10 ^ 3) := by decide
    omega
  · rw [if_neg hus] at hout
    have hmin : roundNat (2 ^ 63 + 1025) ≤ roundNat a := roundNat_mono (by omega)
    have hminEq : roundNat (2 ^ 63 + 1025) = 2 ^ 63 + 2048 := by decide
    have hunit : unitMultiplier (roundNat a) = 1 := by
      rw [unitMultiplier, if_neg (by omega), if_neg (by omega), if_neg (by omega)]
    have hle : roundNat ((2 ^ 63 + 2048) * 1) ≤ floatProduct a := le_floatProduct (by omega) hunit
    have hlow : 2 ^ 63 < roundNat ((2 ^ 63 + 2048) * 1) := by decide
    omega

/-- The revived sizes pass the guard. -/
lemma floatProduct_le {n : Int} (h : Revived n) : floatProduct n.natAbs ≤ 2 ^ 63 := by
  rcases h with h | ⟨hlow, hhigh⟩
  · revert h
    generalize n.natAbs = a
    revert a
    decide
  · have hmin : roundNat (2 ^ 63) ≤ roundNat n.natAbs := roundNat_mono (by omega)
    have hmax : roundNat n.natAbs ≤ roundNat (2 ^ 63 + 1024) := roundNat_mono (by omega)
    have hmaxEq : roundNat (2 ^ 63 + 1024) = 2 ^ 63 := by decide
    have hround : roundNat n.natAbs = 2 ^ 63 := by
      rw [roundNat_two_pow] at hmin
      omega
    unfold floatProduct
    rw [hround]
    decide

lemma exactNanos_eq_none {n : Int} :
    exactNanos n = none ↔
      n * unitMultiplier n.natAbs < -2 ^ 63 ∨ 2 ^ 63 ≤ n * unitMultiplier n.natAbs := by
  unfold exactNanos
  constructor
  · intro h
    by_contra hnot
    rw [i64TryFrom_of_mem (by omega) (by omega)] at h
    cases h
  · intro h
    exact i64TryFrom_eq_none h

/-- The exact product of a revived integer does not fit. -/
lemma exactNanos_of_revived {n : Int} (h : Revived n) : exactNanos n = none := by
  rcases h with h | ⟨hlow, hhigh⟩
  · simp only [List.mem_cons, List.not_mem_nil, or_false] at h
    rcases h with h | h | h <;> rcases Int.natAbs_eq n with hn | hn <;> rw [h] at hn <;> rw [hn] <;>
      decide
  · have hone : unitMultiplier n.natAbs = 1 := by
      rw [unitMultiplier, if_neg (by omega), if_neg (by omega), if_neg (by omega)]
    rw [exactNanos_eq_none, hone]
    omega

/-- The floating-point path takes up exactly the revived ones of the integers that the exact path
refuses. -/
lemma epochFloatNanos_eq_none {n : Int} (hlow : -2 ^ 63 ≤ n) (hhigh : n < 2 ^ 64)
    (hnone : exactNanos n = none) : epochFloatNanos (Float.Model.ofInt n) = none ↔ ¬Revived n := by
  have hne : n ≠ 0 := by
    rintro rfl
    cases hnone
  rw [epochFloatNanos_ofInt hne (by omega)]
  constructor
  · intro h hrevived
    rw [if_pos (floatProduct_le hrevived)] at h
    cases h
  · intro hnot
    unfold Revived at hnot
    rw [not_or] at hnot
    rw [exactNanos_eq_none] at hnone
    have hprod : (n * unitMultiplier n.natAbs).natAbs = n.natAbs * unitMultiplier n.natAbs := by
      rw [Int.natAbs_mul, Int.natAbs_natCast]
    have hneg : n = -2 ^ 63 → (unitMultiplier n.natAbs : Int) = 1 := by
      rintro rfl
      rfl
    have hbig : n.natAbs < 2 ^ 63 ∨ 2 ^ 63 + 1024 < n.natAbs := by
      by_contra hmid
      have hmin : n = -2 ^ 63 := by omega
      rw [hneg hmin] at hnone
      omega
    have hlt := lt_floatProduct (by omega) hbig hnot.1
    rw [if_neg (by omega)]

section Numbers

variable {N : Type} [Crates N]

/-- The decimal form of an integer of JSON is no date. -/
def IntegersAreNoDates (N : Type) [Crates N] : Prop :=
  ∀ n : Int, -2 ^ 63 ≤ n → n < 2 ^ 64 → Crates.parseFromRfc3339 (N := N) (toString n) = none ∧
    Crates.parseFromStr (N := N) (toString n) "%Y-%m-%d %H:%M:%S" = none

/-- The JSON number `number` holds the integer `n`: `as_i64` returns it when it fits, and `as_f64`
rounds it to nearest. -/
structure HoldsInteger (number : N) (n : Int) : Prop where
  asI64 : Crates.asI64 number = i64TryFrom n
  asF64 : Crates.asF64 number = some (Float.Model.ofInt n)

lemma timestampValueNanos_number {number : N} {n : Int} (h : HoldsInteger number n) :
    timestampValueNanos (.number number) =
      (exactNanos n).or (epochFloatNanos (Float.Model.ofInt n)) := by
  unfold timestampValueNanos
  dsimp only
  rw [h.asI64, h.asF64, bind_epochIntNanos, Option.bind_some]

lemma timestampValueNanos_string (hdates : IntegersAreNoDates N) {n : Int}
    (hlow : -2 ^ 63 ≤ n) (hhigh : n < 2 ^ 64) :
    timestampValueNanos (N := N) (.string (toString n)) =
      (exactNanos n).or (epochFloatNanos (Float.Model.ofInt n)) := by
  have hdate : dateNanos N (toString n) = none := by
    obtain ⟨hrfc, hnaive⟩ := hdates n hlow hhigh
    unfold dateNanos
    rw [hrfc, hnaive]
    rfl
  unfold timestampValueNanos
  dsimp only
  rw [hdate]
  dsimp only
  rw [parseI64_toString, parseF64_toString (by omega), bind_epochIntNanos, Option.bind_some]

/-- Both forms of an integer give the exact product, or null when it does not fit. -/
structure ExactOrNull (number : N) (n : Int) : Prop where
  number : timestampValueNanos (.number number) = exactNanos n
  string : timestampValueNanos (N := N) (.string (toString n)) = exactNanos n

/-- The two forms of an integer always agree; they are exact or null except for the revived
integers. -/
theorem exact_or_null_iff (hdates : IntegersAreNoDates N) {n : Int} (hlow : -2 ^ 63 ≤ n)
    (hhigh : n < 2 ^ 64) {number : N} (hnumber : HoldsInteger number n) :
    timestampValueNanos (.number number) = timestampValueNanos (N := N) (.string (toString n)) ∧
      (ExactOrNull number n ↔ ¬Revived n) := by
  have hform := timestampValueNanos_number hnumber
  have hstring := timestampValueNanos_string hdates hlow hhigh
  refine ⟨hform.trans hstring.symm, ?_⟩
  constructor
  · rintro ⟨hexact, -⟩ hrevived
    have hnone := exactNanos_of_revived hrevived
    rw [hform, hnone, Option.none_or] at hexact
    exact (epochFloatNanos_eq_none hlow hhigh hnone).mp hexact hrevived
  · intro hnot
    have hexact : (exactNanos n).or (epochFloatNanos (Float.Model.ofInt n)) = exactNanos n := by
      cases hnone : exactNanos n with
      | none => exact (epochFloatNanos_eq_none hlow hhigh hnone).mpr hnot
      | some nanos => rfl
    exact ⟨hform.trans hexact, hstring.trans hexact⟩

lemma JsonInt.holdsInteger (n : Int) : HoldsInteger (⟨n⟩ : JsonInt) n := ⟨rfl, rfl⟩

lemma JsonInt.integersAreNoDates : IntegersAreNoDates JsonInt := by
  intro n _ _
  exact ⟨rfl, rfl⟩

/-- One second after the epoch, and a number of seconds too large for nanoseconds. -/
theorem exact_or_null_sample :
    ExactOrNull (⟨1⟩ : JsonInt) 1 ∧ ExactOrNull (⟨-9999999999⟩ : JsonInt) (-9999999999) := by
  constructor
  · exact (exact_or_null_iff JsonInt.integersAreNoDates (by decide) (by decide)
      (JsonInt.holdsInteger 1)).2.mpr (by decide)
  · exact (exact_or_null_iff JsonInt.integersAreNoDates (by decide) (by decide)
      (JsonInt.holdsInteger (-9999999999))).2.mpr (by decide)

/-- The first integer beyond `i64` becomes the greatest `Int64`, and the last one that counts as
microseconds is rounded into the range of nanoseconds. -/
theorem revived_sample :
    exactNanos (2 ^ 63) = none ∧
      timestampValueNanos (.number (⟨2 ^ 63⟩ : JsonInt)) = some Int64.maxValue ∧
      ¬ExactOrNull (⟨2 ^ 63⟩ : JsonInt) (2 ^ 63) ∧
      exactNanos 9999999999999999 = none ∧
      timestampValueNanos (N := JsonInt) (.string "9999999999999999") = some 10000000000000000 := by
  have hmax : timestampValueNanos (.number (⟨2 ^ 63⟩ : JsonInt)) = some Int64.maxValue := by
    decide
  refine ⟨by decide, hmax, ?_, by decide, by decide⟩
  intro h
  have hexact := h.number
  rw [hmax] at hexact
  exact absurd hexact (by decide)

end Numbers

end WpConnectorUtils.Ndjson
