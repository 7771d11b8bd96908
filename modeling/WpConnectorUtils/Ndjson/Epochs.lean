import WpConnectorUtils.Library.Binary64Value
import WpConnectorUtils.Ndjson.Timestamps

/-!
# Epochs with a fraction

The floating-point path rounds twice, in the product and to whole nanoseconds. It refuses exactly
the products that are out of range, and what it returns is near the exact product.
-/

namespace WpConnectorUtils.Ndjson
open Arrow Binary64
open Float.Model (UnpackedFloat)
open Float.Model.UnpackedFloat (Sign)

/-- The rational number that the unit of its size turns `raw` into. -/
def exactProduct (raw : F64) : ℚ :=
  value raw.unpack * unitMultiplier ⌊|value raw.unpack|⌋₊

/-- `v` is near enough to `p` for the guard and for the result. -/
structure Near (v p : ℚ) : Prop where
  error : |v - p| ≤ |p| / 2 ^ 53 ∨ |v| ≤ 1 ∧ |v - p| ≤ 1 / 2
  guard : |v| ≤ 2 ^ 63 ↔ |p| ≤ 2 ^ 63 + 1024

/-! ### The product -/

lemma near_zero : Near 0 0 := by
  constructor
  · left
    norm_num
  · norm_num

lemma near_of_roundsTo {s : Sign} {m k r : Nat} {e : Int} {u : UnpackedFloat}
    (h : RoundsTo s m e u k r) (hm : m ≠ 0) : Near (value u) (s.apply m * 2 ^ e) := by
  have habs : |((s.apply m : Int) : ℚ) * 2 ^ e| = m * 2 ^ e := by
    rw [abs_mul, abs_apply, abs_of_pos (two_zpow_pos e)]
  constructor
  · rw [habs]
    exact h.relative_error hm
  · rw [habs]
    exact h.abs_value_le_iff hm

/-- The size of a number that is not counted in nanoseconds. -/
lemma lt_of_unitMultiplier_ne {v : ℚ} (h : unitMultiplier ⌊|v|⌋₊ ≠ 1) : |v| < 10 ^ 16 := by
  by_contra hnot
  have hfloor : 10 ^ 16 ≤ ⌊|v|⌋₊ := Nat.le_floor (by exact_mod_cast not_lt.mp hnot)
  apply h
  unfold unitMultiplier
  rw [if_neg (by omega), if_neg (by omega), if_neg (by omega)]

/-- A product with the unit does not overflow. -/
lemma isFinite_product {s : Sign} {m m' a k r : Nat} {e e' : Int} {u : UnpackedFloat}
    (hm : 0 < m) (hm' : 0 < m') (hcanonical : Canonical m e)
    (hunit : Represents (.finite .positive m' e' hm') .positive (unitMultiplier a) 0)
    (ha : a = ⌊|value (.finite s m e hm)|⌋₊)
    (hround : RoundsTo (s * .positive) (m * m') (e + e') u k r) : IsFinite u := by
  have hne : m * m' ≠ 0 := (Nat.mul_pos hm hm').ne'
  by_cases hone : unitMultiplier a = 1
  · rw [hone] at hunit
    obtain ⟨m₁, k₁, hm₁, heq, hlow, hhigh, hval⟩ := hunit
    cases heq
    have hk : k₁ = 0 := log2_of_represents hlow hhigh hval one_ne_zero
    subst hk
    obtain rfl : m' = 2 ^ 52 := by omega
    have he : e + (((0 : Nat) : Int) - 52 + 0) = e - 52 := by
      push_cast
      ring
    rw [he] at hround
    exact hcanonical.isFinite_of_roundsTo hm.ne' hround
  · have hsize : |value (.finite s m e hm)| < 10 ^ 16 := by
      rw [ha] at hone
      exact lt_of_unitMultiplier_ne hone
    have hmul : (unitMultiplier a : ℚ) ≤ 10 ^ 9 := by exact_mod_cast (unitMultiplier_pos a).2
    have hvalue : |value (.finite .positive m' e' hm')| = unitMultiplier a := by
      rw [hunit.value_eq, abs_apply]
    have hexact : ((m * m' : Nat) : ℚ) * 2 ^ (e + e') =
        |value (.finite s m e hm)| * unitMultiplier a := by
      rw [← hvalue, ← abs_mul, ← apply_mul, abs_mul, abs_apply, abs_of_pos (two_zpow_pos _)]
    apply hround.isFinite_of_lt hne
    calc ((m * m' : Nat) : ℚ) * 2 ^ (e + e') = |value (.finite s m e hm)| * unitMultiplier a := hexact
      _ ≤ 10 ^ 16 * 10 ^ 9 := mul_le_mul hsize.le hmul (Nat.cast_nonneg _) (by positivity)
      _ < 2 ^ (84 : Int) := by norm_num
      _ ≤ 2 ^ (1022 : Int) := two_zpow_le (by norm_num)

/-- What `epoch_float_nanos` computes of a finite number before it looks at the range. -/
theorem product_near {raw : F64} (h : IsFinite raw.unpack) :
    let nanos := raw * Float.Model.ofInt64 (epochUnitMultiplier raw.abs.toInt64)
    IsFinite nanos.unpack ∧ Near (value nanos.unpack) (exactProduct raw) := by
  intro nanos
  have hunit : (epochUnitMultiplier raw.abs.toInt64).toInt =
      unitMultiplier ⌊|value raw.unpack|⌋₊ := by
    rw [toInt64_abs h]
    exact toInt_epochUnitMultiplier_clamp _
  have hint := isInteger_unitMultiplier hunit
  unfold IsInteger at hint
  have hvalue := hint.value_eq
  change IsFinite (Float.Model.pack (UnpackedFloat.mul .binary64 raw.unpack _)).unpack ∧
    Near (value (Float.Model.pack (UnpackedFloat.mul .binary64 raw.unpack _)).unpack) _
  unfold exactProduct
  generalize Float.Model.ofInt64 _ = unit at hint hvalue ⊢
  obtain ⟨m', k', hm', hunpack, hlow, hhigh, hval⟩ := id hint
  rw [hunpack] at hint hvalue ⊢
  generalize raw.unpack = x at h hint hvalue ⊢
  cases h with
  | zero s =>
    have hfinite : IsFinite (UnpackedFloat.mul .binary64 (.zero s)
      (.finite .positive m' (k' - 52 + 0) hm')) := .zero _
    rw [hfinite.unpack_pack]
    refine ⟨hfinite, ?_⟩
    change Near 0 (0 * _)
    rw [zero_mul]
    exact near_zero
  | @finite s m e hm hcanonical =>
    obtain ⟨k, r, hround⟩ := roundsTo_mul s .positive e (k' - 52 + 0) hm hm' hlow
    have hfinite := isFinite_product hm hm' hcanonical hint rfl hround
    have hnear := near_of_roundsTo hround (Nat.mul_pos hm hm').ne'
    rw [apply_mul s .positive e _ hm hm', hvalue] at hnear
    rw [hfinite.unpack_pack]
    exact ⟨hfinite, hnear⟩

/-! ### The result -/

lemma abs_apply_sub (s : Sign) {m : Nat} (e : Int) (hm : 0 < m) (q : Nat) :
    |((s.apply q : Int) : ℚ) - value (.finite s m e hm)| = |(q : ℚ) - m * 2 ^ e| := by
  cases s with
  | positive =>
    rw [value_positive]
    rfl
  | negative =>
    rw [value_negative, ← abs_neg]
    simp only [Sign.apply]
    push_cast
    ring_nf

/-- The half added before the division rounds to the nearest integer. -/
lemma half_up_error (m : Nat) {half : Nat} (hpos : 0 < half) :
    |(((2 * m + half) / (2 * half) : Nat) : ℚ) - m / half| ≤ 1 / 2 := by
  have hdiv := Nat.div_add_mod (2 * m + half) (2 * half)
  have hmod := Nat.mod_lt (2 * m + half) (show 0 < 2 * half by omega)
  generalize (2 * m + half) / (2 * half) = q at hdiv ⊢
  have hup : 2 * (q * half) ≤ 2 * m + half := by
    calc 2 * (q * half) = 2 * half * q := by ring
      _ ≤ 2 * m + half := by omega
  have hdown : 2 * m ≤ 2 * (q * half) + half := by
    have hcomm : 2 * (q * half) = 2 * half * q := by ring
    omega
  have hhalf : (0 : ℚ) < half := by exact_mod_cast hpos
  have hup' : 2 * ((q : ℚ) * half) ≤ 2 * m + half := by exact_mod_cast hup
  have hdown' : 2 * (m : ℚ) ≤ 2 * (q * half) + half := by exact_mod_cast hdown
  have hsplit : (q : ℚ) - m / half = (q * half - m) / half := by field_simp
  rw [hsplit, abs_div, abs_of_pos hhalf, div_le_iff₀ hhalf, abs_le]
  constructor <;> linarith

/-- An integer of at most 53 bits is read back from its normalized form. -/
lemma toInt64_normalize (s : Sign) {q : Nat} (hq : q < 2 ^ 53) :
    (Float.Model.pack (.normalize .binary64 (s.apply q) 0 s)).toInt64 =
      Int64.ofIntClamp (s.apply q) := by
  by_cases hzero : q = 0
  · subst hzero
    cases s <;> rfl
  · have hnorm := represents_normalize (n := s.apply q) (by cases s <;> simp [Sign.apply, hzero]) s
    rw [signOf_apply s hzero, natAbs_apply, roundNat_of_lt hq] at hnorm
    exact (isInteger_pack hnorm (by omega)).toInt64

/-- Rounded to an integer, a number moves by one half at most. -/
lemma roundF64_error {x : F64} (h : IsFinite x.unpack) :
    ∃ n : Int, (roundF64 x).toInt64 = Int64.ofIntClamp n ∧ |(n : ℚ) - value x.unpack| ≤ 1 / 2 := by
  unfold roundF64
  cases hx : x.unpack with
  | finite s m e hm =>
    dsimp only
    by_cases he : 0 ≤ e
    · refine ⟨s.apply ⌊(m : ℚ) * 2 ^ e⌋₊, ?_, ?_⟩
      · rw [if_pos he]
        unfold Float.Model.toInt64 UnpackedFloat.toInt64
        rw [hx, toInt_finite]
      · have hint : (m : ℚ) * 2 ^ e = (m * 2 ^ e.toNat : Nat) := by
          obtain ⟨j, rfl⟩ := Int.eq_ofNat_of_zero_le he
          rw [zpow_natCast]
          push_cast
          rfl
        rw [abs_apply_sub, hint, Nat.floor_natCast, sub_self, abs_zero]
        norm_num
    · obtain ⟨j, hj⟩ : ∃ j : Nat, (-e).toNat = j + 1 := ⟨(-e).toNat - 1, by omega⟩
      have hneg : e = -((j + 1 : Nat) : Int) := by omega
      have hhalf : 2 ≤ 2 ^ (j + 1) := by
        calc 2 = 2 ^ 1 := rfl
          _ ≤ 2 ^ (j + 1) := Nat.pow_le_pow_right (by norm_num) (by omega)
      have hq : (2 * m + 2 ^ (j + 1)) / (2 * 2 ^ (j + 1)) < 2 ^ 53 := by
        have hm : m < 2 ^ 53 := by
          rw [hx] at h
          cases h with
          | finite _ _ hcanonical => exact hcanonical.mantissa
        rw [Nat.div_lt_iff_lt_mul (by positivity)]
        omega
      refine ⟨s.apply ((2 * m + 2 ^ (j + 1)) / (2 * 2 ^ (j + 1)) : Nat), ?_, ?_⟩
      · rw [if_neg he, hj, ← toInt64_normalize s hq]
        push_cast
        rfl
      · have hvalue : (m : ℚ) * 2 ^ e = m / (2 ^ (j + 1) : Nat) := by
          rw [hneg, zpow_neg, zpow_natCast]
          push_cast
          rfl
        rw [abs_apply_sub, hvalue]
        exact half_up_error m (by positivity)
  | zero s =>
    refine ⟨0, ?_, ?_⟩
    · unfold Float.Model.toInt64
      rw [hx]
      rfl
    · change |((0 : Int) : ℚ) - 0| ≤ 1 / 2
      norm_num
  | infinity s =>
    rw [hx] at h
    cases h
  | notANumber =>
    rw [hx] at h
    cases h

/-- The saturating cast of a number in range. -/
lemma ofIntClamp_error {n : Int} {v : ℚ} (hn : |(n : ℚ) - v| ≤ 1 / 2) (hv : |v| ≤ 2 ^ 63) :
    |((Int64.ofIntClamp n).toInt : ℚ) - v| ≤ 1 ∧
      (|v| ≤ 1 → |((Int64.ofIntClamp n).toInt : ℚ) - v| ≤ 1 / 2) := by
  obtain ⟨hnlow, hnhigh⟩ := abs_le.mp hn
  obtain ⟨hvlow, hvhigh⟩ := abs_le.mp hv
  have hlow : -2 ^ 63 ≤ n := by
    by_contra hnot
    have hcast : (n : ℚ) ≤ -2 ^ 63 - 1 := by exact_mod_cast (show n ≤ -2 ^ 63 - 1 by omega)
    linarith
  have hhigh : n ≤ 2 ^ 63 := by
    by_contra hnot
    have hcast : (2 ^ 63 + 1 : ℚ) ≤ n := by exact_mod_cast (show 2 ^ 63 + 1 ≤ n by omega)
    linarith
  rcases hhigh.lt_or_eq with hlt | rfl
  · have hclamp : (Int64.ofIntClamp n).toInt = n := by
      apply Int64.toInt_ofIntClamp
      · rw [Int64.toInt_minValue]
        omega
      · rw [Int64.toInt_maxValue]
        omega
    rw [hclamp]
    constructor
    · linarith
    · intro _
      exact hn
  · have hclamp : (Int64.ofIntClamp (2 ^ 63)).toInt = 2 ^ 63 - 1 := by decide
    rw [hclamp]
    push_cast at hnhigh ⊢
    constructor
    · rw [abs_le]
      constructor <;> linarith
    · intro hone
      have hle := (abs_le.mp hone).2
      norm_num at hnhigh
      linarith

/-- The guard of `epoch_float_nanos` looks at the size. -/
lemma guard_iff_value {nanos : F64} (h : IsFinite nanos.unpack) :
    (¬nanos.isFinite ∨ nanos < Float.Model.ofInt64 Int64.minValue ∨
      Float.Model.ofInt64 Int64.maxValue < nanos) ↔ 2 ^ 63 < |value nanos.unpack| := by
  have hmin : Represents _ _ _ _ := isInteger_minValue
  have hmax : Represents _ _ _ _ := isInteger_maxValue
  have hfinite : nanos.isFinite = true := h.isFinite
  rw [lt_iff_value_lt h (hmin.finite (by norm_num)), lt_iff_value_lt (hmax.finite (by norm_num)) h,
    hmin.value_eq, hmax.value_eq, hfinite, lt_abs]
  simp only [Sign.apply, not_true_eq_false, false_or]
  push_cast
  constructor
  · rintro (hlow | hhigh)
    · right
      linarith
    · exact .inl hhigh
  · rintro (hhigh | hlow)
    · exact .inr hhigh
    · left
      linarith

lemma epochFloatNanos_of_finite {raw : F64} (h : IsFinite raw.unpack) :
    epochFloatNanos raw = if |exactProduct raw| ≤ 2 ^ 63 + 1024 then
      some (roundF64 (raw * Float.Model.ofInt64 (epochUnitMultiplier raw.abs.toInt64))).toInt64
    else none := by
  obtain ⟨hfinite, hnear⟩ := product_near h
  have hguard := guard_iff_value hfinite
  have hraw : raw.isFinite = true := h.isFinite
  unfold epochFloatNanos
  rw [if_neg (by simp [hraw])]
  dsimp only
  by_cases hpass : |exactProduct raw| ≤ 2 ^ 63 + 1024
  · rw [if_neg (hguard.not.mpr (not_lt.mpr (hnear.guard.mpr hpass))), if_pos hpass]
  · rw [if_pos (hguard.mpr (not_le.mp (hnear.guard.not.mpr hpass))), if_neg hpass]

/-- `epoch_float_nanos` refuses what is not finite and what is out of range, and otherwise is as
near to the exact product as two roundings allow. -/
theorem epoch_float_accuracy (raw : F64) :
    (epochFloatNanos raw = none ↔ raw.isFinite = false ∨ 2 ^ 63 + 1024 < |exactProduct raw|) ∧
      ∀ nanos, epochFloatNanos raw = some nanos →
        |(nanos.toInt : ℚ) - exactProduct raw| ≤ 1 + |exactProduct raw| / 2 ^ 53 := by
  by_cases hraw : raw.isFinite = true
  · have h := isFinite_unpack hraw
    obtain ⟨hfinite, hnear⟩ := product_near h
    rw [epochFloatNanos_of_finite h]
    constructor
    · rw [hraw]
      by_cases hpass : |exactProduct raw| ≤ 2 ^ 63 + 1024
      · simp [hpass]
      · simp [hpass, not_le.mp hpass]
    · intro nanos hsome
      by_cases hpass : |exactProduct raw| ≤ 2 ^ 63 + 1024
      · rw [if_pos hpass] at hsome
        cases hsome
        obtain ⟨n, hclamp, herror⟩ := roundF64_error hfinite
        obtain ⟨hone, hhalf⟩ := ofIntClamp_error herror (hnear.guard.mpr hpass)
        have hpos := abs_nonneg (exactProduct raw)
        have htriangle := abs_sub_le ((Int64.ofIntClamp n).toInt : ℚ)
          (value (raw * Float.Model.ofInt64 (epochUnitMultiplier raw.abs.toInt64)).unpack)
          (exactProduct raw)
        rw [hclamp]
        rcases hnear.error with hrelative | ⟨htiny, habsolute⟩
        · linarith
        · have hhalf' := hhalf htiny
          linarith
      · rw [if_neg hpass] at hsome
        cases hsome
  · have hfalse : raw.isFinite = false := by simpa using hraw
    have hnone : epochFloatNanos raw = none := by
      unfold epochFloatNanos
      rw [if_pos hraw]
    rw [hnone, hfalse]
    constructor
    · simp
    · intro nanos hsome
      cases hsome

/-- A second and a half after the epoch. -/
theorem epoch_float_accuracy_sample :
    let raw : F64 := Float.Model.ofScientific 15 (-1)
    epochFloatNanos raw = some 1500000000 ∧
      |((1500000000 : Int64).toInt : ℚ) - exactProduct raw| ≤ 1 + |exactProduct raw| / 2 ^ 53 := by
  intro raw
  have hsome : epochFloatNanos raw = some 1500000000 := by decide
  exact ⟨hsome, (epoch_float_accuracy raw).2 1500000000 hsome⟩

end WpConnectorUtils.Ndjson
