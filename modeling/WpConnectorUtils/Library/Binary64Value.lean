import WpConnectorUtils.Library.Binary64

/-!
# The values of binary64 numbers

A finite number of the standard library's model is a rational number in canonical form. Packing
keeps it, comparison is that of the rationals, the conversion to an integer truncates, and a
product is within half a unit in the last place of the exact one.
-/

namespace Binary64

open Float.Model Float.Model.UnpackedFloat

/-- The mantissas and exponents of the packed form. -/
structure Canonical (m : Nat) (e : Int) : Prop where
  mantissa : m < 2 ^ 53
  low : -1074 ≤ e
  high : e ≤ 971
  leading : 2 ^ 52 ≤ m ∨ e = -1074

/-- The numbers of the packed form: no infinity, no NaN. -/
inductive IsFinite : UnpackedFloat → Prop
  | zero (s : Sign) : IsFinite (.zero s)
  | finite (s : Sign) {m : Nat} {e : Int} (hm : 0 < m) (h : Canonical m e) :
    IsFinite (.finite s m e hm)

/-- The rational number that is meant. -/
def value : UnpackedFloat → ℚ
  | .finite s m e _ => s.apply m * 2 ^ e
  | _ => 0

lemma two_zpow_pos (e : Int) : (0 : ℚ) < 2 ^ e := zpow_pos (by norm_num) e

lemma two_zpow_add (e : Int) (k : Nat) : (2 : ℚ) ^ (e + k) = 2 ^ e * 2 ^ k := by
  rw [zpow_add₀ (by norm_num), zpow_natCast]

lemma two_zpow_le {e e' : Int} (h : e ≤ e') : (2 : ℚ) ^ e ≤ 2 ^ e' :=
  zpow_le_zpow_right₀ (by norm_num) h

lemma abs_apply (s : Sign) (n : Nat) : |((s.apply n : Int) : ℚ)| = n := by
  cases s with
  | positive => simp [Sign.apply]
  | negative => simp [Sign.apply]

lemma abs_value (s : Sign) {m : Nat} (e : Int) (hm : 0 < m) :
    |value (.finite s m e hm)| = m * 2 ^ e := by
  unfold value
  rw [abs_mul, abs_apply, abs_of_pos (two_zpow_pos e)]

/-! ### The packed form -/

/-- The parts of a packed number that is finite. -/
lemma isFinite_of_bits {b : BitVec Format.binary64.numBits}
    (h : (UnpackedFloat.unpack .binary64 b).isFinite = true) :
    IsFinite (UnpackedFloat.unpack .binary64 b) := by
  have hbias : Format.binary64.exponentBias = 1023 := rfl
  have hmantissa : (unpackMantissa b).toNat < 2 ^ 52 := (unpackMantissa b).isLt
  have hexponent : (unpackExponent b).toNat < 2 ^ 11 := (unpackExponent b).isLt
  unfold UnpackedFloat.unpack at h ⊢
  dsimp only at h ⊢
  by_cases hinf : unpackExponent b = -1#11
  · rw [if_pos hinf] at h
    split at h <;> cases h
  rw [if_neg hinf]
  by_cases hzero : unpackExponent b = 0#11
  · rw [if_pos hzero]
    by_cases hm : unpackMantissa b = 0#52
    · rw [dif_pos hm]
      exact .zero _
    · rw [dif_neg hm]
      have hexp : (unpackExponent b).toNat = 0 := congrArg BitVec.toNat hzero
      refine .finite _ _ ⟨by omega, ?_, ?_, .inr ?_⟩ <;> rw [hexp, hbias] <;> norm_num
  · rw [if_neg hzero]
    have hpos : (unpackExponent b).toNat ≠ 0 := fun hexp => hzero (BitVec.eq_of_toNat_eq hexp)
    have hmax : (unpackExponent b).toNat ≠ 2047 := fun hexp => hinf (BitVec.eq_of_toNat_eq hexp)
    have hfull : (1#1 ++ unpackMantissa b).toNat = 2 ^ 52 + (unpackMantissa b).toNat := by
      rw [BitVec.toNat_append, ← Nat.shiftLeft_add_eq_or_of_lt hmantissa]
      rfl
    refine .finite _ _ ⟨?_, ?_, ?_, .inl ?_⟩
    · omega
    · rw [hbias]
      push_cast
      omega
    · rw [hbias]
      push_cast
      omega
    · omega

lemma isFinite_unpack {x : Float.Model} (h : x.isFinite = true) : IsFinite x.unpack :=
  isFinite_of_bits h

lemma IsFinite.isFinite {u : UnpackedFloat} (h : IsFinite u) : u.isFinite = true := by
  cases h <;> rfl

/-- The packed form of a mantissa with fewer bits keeps the number. -/
lemma unpack_pack_subnormal (s : Sign) {m : Nat} (hm : 0 < m) (hlt : m < 2 ^ 52) :
    UnpackedFloat.unpack .binary64 (UnpackedFloat.pack .binary64 (.finite s m (-1074) hm)) =
      .finite s m (-1074) hm := by
  have hbias : Format.binary64.exponentBias = 1023 := rfl
  have hbits : Format.binary64.mantissaBits = 53 := rfl
  have hmantissa : (BitVec.ofNat 52 m).toNat = m := by
    rw [BitVec.toNat_ofNat, Nat.mod_eq_of_lt hlt]
  have hne : BitVec.ofNat 52 m ≠ 0#52 := by
    intro heq
    have hnat := congrArg BitVec.toNat heq
    rw [hmantissa, BitVec.toNat_zero] at hnat
    omega
  have hlog : m.log2 < 52 := (Nat.log2_lt (by omega)).mpr hlt
  have hpack : UnpackedFloat.pack .binary64 (.finite s m (-1074) hm) =
      packComponents .binary64 s 0#11 (BitVec.ofNat 52 m) := by
    unfold UnpackedFloat.pack
    dsimp only
    rw [if_neg (by rw [hbias]; norm_num), if_neg (by omega)]
  rw [hpack]
  unfold UnpackedFloat.unpack
  simp only [unpackMantissa_packComponents, unpackExponent_packComponents, unpackSign_packComponents,
    Sign.ofBitVec_toBitVec]
  rw [if_neg (by decide), if_pos trivial, dif_neg hne]
  simp only [hmantissa, hbias]
  rfl

/-- The packed form keeps every finite number. -/
theorem IsFinite.unpack_pack {u : UnpackedFloat} (h : IsFinite u) :
    (Float.Model.pack u).unpack = u := by
  cases h with
  | zero s => cases s <;> rfl
  | @finite s m e hm h =>
    by_cases hlow : 2 ^ 52 ≤ m
    · exact unpack_pack_normal s hm hlow h.mantissa h.low h.high
    · obtain rfl : e = -1074 := h.leading.resolve_left hlow
      exact unpack_pack_subnormal s hm (by omega)

/-! ### Comparison -/

/-- Positive numbers are ordered by their exponents, then by their mantissas. -/
lemma Canonical.compare_eq {m m' : Nat} {e e' : Int} (h : Canonical m e) (h' : Canonical m' e') :
    (compare e e').then (compare m m') = compare ((m : ℚ) * 2 ^ e) (m' * 2 ^ e') := by
  have hless {m m' : Nat} {e e' : Int} (h : Canonical m e) (h' : Canonical m' e') (hlt : e < e') :
      (m : ℚ) * 2 ^ e < m' * 2 ^ e' := by
    have hlow : 2 ^ 52 ≤ m' := h'.leading.resolve_right (by have := h.low; omega)
    calc (m : ℚ) * 2 ^ e < 2 ^ 53 * 2 ^ e :=
          mul_lt_mul_of_pos_right (by exact_mod_cast h.mantissa) (two_zpow_pos e)
      _ = 2 ^ 52 * 2 ^ (e + (1 : Nat)) := by rw [two_zpow_add]; ring
      _ ≤ 2 ^ 52 * 2 ^ e' := by
          have hle := two_zpow_le (show e + (1 : Nat) ≤ e' by push_cast; omega)
          linarith
      _ ≤ m' * 2 ^ e' := mul_le_mul_of_nonneg_right (by exact_mod_cast hlow) (two_zpow_pos e').le
  rcases lt_trichotomy e e' with hlt | rfl | hgt
  · rw [Int.compare_eq_lt.mpr hlt, compare_lt_iff_lt.mpr (hless h h' hlt)]
    rfl
  · rw [Int.compare_eq_eq.mpr rfl]
    change compare m m' = _
    have hpos := two_zpow_pos e
    rcases lt_trichotomy m m' with hlt | rfl | hgt
    · rw [Nat.compare_eq_lt.mpr hlt, compare_lt_iff_lt.mpr]
      exact mul_lt_mul_of_pos_right (by exact_mod_cast hlt) hpos
    · rw [Nat.compare_eq_eq.mpr rfl, compare_eq_iff_eq.mpr rfl]
    · rw [Nat.compare_eq_gt.mpr hgt, compare_gt_iff_gt.mpr]
      exact mul_lt_mul_of_pos_right (by exact_mod_cast hgt) hpos
  · rw [Int.compare_eq_gt.mpr hgt, compare_gt_iff_gt.mpr (hless h' h hgt)]
    rfl

lemma value_positive {m : Nat} (e : Int) (hm : 0 < m) :
    value (.finite .positive m e hm) = m * 2 ^ e := by
  simp [value, Sign.apply]

lemma value_negative {m : Nat} (e : Int) (hm : 0 < m) :
    value (.finite .negative m e hm) = -(m * 2 ^ e) := by
  simp [value, Sign.apply]

lemma mantissa_pos {m : Nat} (e : Int) (hm : 0 < m) : (0 : ℚ) < m * 2 ^ e :=
  mul_pos (by exact_mod_cast hm) (two_zpow_pos e)

/-- Finite numbers are compared like the rational numbers they are. -/
theorem IsFinite.compare_eq {x y : UnpackedFloat} (hx : IsFinite x) (hy : IsFinite y) :
    x.compare y = some (compare (value x) (value y)) := by
  cases hx with
  | zero s =>
    cases hy with
    | zero t => simp [UnpackedFloat.compare, value]
    | @finite t m e hm _ =>
      have hpos := mantissa_pos e hm
      cases t with
      | positive =>
        rw [value_positive, compare_lt_iff_lt.mpr (show value (.zero s) < _ from hpos)]
        rfl
      | negative =>
        rw [value_negative,
          compare_gt_iff_gt.mpr (show value (.zero s) > _ from neg_neg_of_pos hpos)]
        rfl
  | @finite s m e hm h =>
    have hpos := mantissa_pos e hm
    cases hy with
    | zero t =>
      cases s with
      | positive =>
        rw [value_positive, compare_gt_iff_gt.mpr (show _ > value (.zero t) from hpos)]
        rfl
      | negative =>
        rw [value_negative,
          compare_lt_iff_lt.mpr (show _ < value (.zero t) from neg_neg_of_pos hpos)]
        rfl
    | @finite t m' e' hm' h' =>
      have hpos' := mantissa_pos e' hm'
      cases s with
      | positive =>
        cases t with
        | positive =>
          rw [value_positive, value_positive, ← h.compare_eq h']
          rfl
        | negative =>
          rw [value_positive, value_negative, compare_gt_iff_gt.mpr (by linarith)]
          rfl
      | negative =>
        cases t with
        | positive =>
          rw [value_negative, value_positive, compare_lt_iff_lt.mpr (by linarith)]
          rfl
        | negative =>
          have hswap : compare (-((m : ℚ) * 2 ^ e)) (-(m' * 2 ^ e')) =
              (compare ((m : ℚ) * 2 ^ e) (m' * 2 ^ e')).swap := by
            rcases lt_trichotomy ((m : ℚ) * 2 ^ e) (m' * 2 ^ e') with hlt | heq | hgt
            · rw [compare_lt_iff_lt.mpr hlt, compare_gt_iff_gt.mpr (by linarith)]
              rfl
            · rw [heq, compare_eq_iff_eq.mpr rfl, compare_eq_iff_eq.mpr rfl]
              rfl
            · rw [compare_gt_iff_gt.mpr hgt, compare_lt_iff_lt.mpr (by linarith)]
              rfl
          rw [value_negative, value_negative, hswap, ← h.compare_eq h']
          rfl

lemma lt_iff_value_lt {x y : Float.Model} (hx : IsFinite x.unpack) (hy : IsFinite y.unpack) :
    x < y ↔ value x.unpack < value y.unpack := by
  change (x.unpack.compare y.unpack == some Ordering.lt) = true ↔ _
  rw [beq_iff_eq, hx.compare_eq hy, Option.some_inj, compare_lt_iff_lt]

/-! ### Conversion to integers -/

/-- The conversion to an integer truncates. -/
theorem toInt_finite (s : Sign) {m : Nat} {e : Int} (hm : 0 < m) (low high : Int) :
    UnpackedFloat.toInt low high (.finite s m e hm) = s.apply ⌊(m : ℚ) * 2 ^ e⌋₊ := by
  have hfloor : ⌊(m : ℚ) * 2 ^ e⌋₊ = m * 2 ^ e.toNat / 2 ^ (-e).toNat := by
    have hsplit : (m : ℚ) * 2 ^ e = ((m * 2 ^ e.toNat : Nat) : ℚ) / (2 ^ (-e).toNat : Nat) := by
      have hexp : (2 : ℚ) ^ e = 2 ^ e.toNat / 2 ^ (-e).toNat := by
        rw [← zpow_natCast, ← zpow_natCast, ← zpow_sub₀ (by norm_num)]
        congr 1
        omega
      rw [hexp]
      push_cast
      ring
    rw [hsplit, Nat.floor_div_eq_div]
  have hright : (0 - (e - (e.toNat : Int))).toNat = (-e).toNat := by omega
  unfold UnpackedFloat.toInt roundToInt decreaseExponent shiftToExponent
  simp only [Int.sub_zero, hright, mantissa_shift, Nat.shiftLeft_eq, hfloor]

/-! ### Rounding -/

/-- The exponent of the last place of the numbers that `m * 2 ^ e` is rounded to. -/
def ulpExponent (m : Nat) (e : Int) : Int := max (m.log2 - 52 + e) (-1074)

lemma shiftToTarget_ulp (m : Nat) (e : Int) :
    shiftToTargetExponent .binary64 m e .exact =
      (ExtendedMantissa.ofMantissaAndAccuracy m .exact >>> (ulpExponent m e - e).toNat,
        e + (ulpExponent m e - e).toNat) := by
  have htarget : Format.binary64.targetExponent (totalExponent m e) = ulpExponent m e := by
    unfold Format.targetExponent Format.minExponent Format.mantissaBits totalExponent ulpExponent
    push_cast
    congr 1
    omega
  unfold shiftToTargetExponent shiftToExponent
  rw [htarget]

lemma shiftToTarget_of_lt {r : Nat} {e : Int} (hr : r < 2 ^ 53) (he : -1074 ≤ e) :
    shiftToTargetExponent .binary64 r e .exact = (⟨r, false, false⟩, e) := by
  have hlog : r.log2 ≤ 52 := by
    by_cases hzero : r = 0
    · simp [hzero]
    · have hlt := (Nat.log2_lt hzero).mpr hr
      omega
  have hshift : (ulpExponent r e - e).toNat = 0 := by
    unfold ulpExponent
    omega
  rw [shiftToTarget_ulp, hshift, Nat.cast_zero, add_zero]
  rfl

lemma shiftToTarget_carry {e : Int} (he : -1074 ≤ e) :
    shiftToTargetExponent .binary64 (2 ^ 53) e .exact = (⟨2 ^ 52, false, false⟩, e + 1) := by
  have hshift : (ulpExponent (2 ^ 53) e - e).toNat = 1 := by
    unfold ulpExponent
    rw [Nat.log2_two_pow]
    omega
  rw [shiftToTarget_ulp, hshift]
  rfl

/-- The second shift, after a mantissa has been rounded, loses nothing. -/
lemma value_shifted (s : Sign) {r : Nat} {e : Int} (hr : r ≤ 2 ^ 53) (he : -1074 ≤ e)
    (hleading : 2 ^ 52 ≤ r ∨ e = -1074) :
    let p := shiftToTargetExponent .binary64 r e .exact
    let u := if h : p.1.mantissa = 0 then .zero s
      else .finite s p.1.mantissa p.2 (Nat.pos_of_ne_zero h)
    value u = s.apply r * 2 ^ e ∧ (e ≤ 971 → (r = 2 ^ 53 → e ≤ 970) → IsFinite u) := by
  intro p u
  rcases hr.lt_or_eq with hlt | rfl
  · have hp : p = (⟨r, false, false⟩, e) := shiftToTarget_of_lt hlt he
    by_cases hzero : r = 0
    · have hu : u = .zero s := dif_pos (by rw [hp]; exact hzero)
      subst hzero
      rw [hu]
      constructor
      · cases s <;> simp [value, Sign.apply]
      · intro _ _
        exact .zero s
    · have hu : u = .finite s r e (Nat.pos_of_ne_zero hzero) := by
        change dite _ _ _ = _
        rw [hp, dif_neg hzero]
      rw [hu]
      constructor
      · rfl
      · intro hmax _
        exact .finite s _ ⟨hlt, he, hmax, hleading⟩
  · have hp : p = (⟨2 ^ 52, false, false⟩, e + 1) := shiftToTarget_carry he
    have hu : u = .finite s (2 ^ 52) (e + 1) (by norm_num) := by
      change dite _ _ _ = _
      rw [hp, dif_neg (by norm_num)]
    rw [hu]
    constructor
    · have hpow : (2 : ℚ) ^ (e + 1) = 2 ^ e * 2 := by
        rw [zpow_add₀ (by norm_num), zpow_one]
      change ((s.apply ((2 ^ 52 : Nat) : Int) : Int) : ℚ) * 2 ^ (e + 1) = _
      rw [hpow]
      cases s <;> simp only [Sign.apply] <;> push_cast <;> ring
    · intro _ hmax
      have hmax' := hmax rfl
      exact .finite s _ ⟨by norm_num, by omega, by omega, .inl le_rfl⟩

/-- `u` is `m * 2 ^ e` rounded to `r` units of `2 ^ (e + k)`, with the sign `s`. -/
structure RoundsTo (s : Sign) (m : Nat) (e : Int) (u : UnpackedFloat) (k r : Nat) : Prop where
  exponent : ulpExponent m e = e + k
  mantissa : r = nearestEven m (2 ^ k)
  high : r ≤ 2 ^ 53
  leading : 2 ^ 52 ≤ r ∨ e + k = -1074
  rounded : value u = s.apply r * 2 ^ (e + k)
  finite : e + k ≤ 971 → (r = 2 ^ 53 → e + k ≤ 970) → IsFinite u

/-- The model rounds to nearest, for subnormal results too. -/
theorem roundsTo_roundWithAccuracy (s : Sign) {m : Nat} {e : Int} (hm : 52 ≤ m.log2) :
    ∃ k r, RoundsTo s m e (roundWithAccuracy .binary64 s m e .exact) k r := by
  have hne : m ≠ 0 := by
    rintro rfl
    simp at hm
  obtain ⟨k, hk⟩ : ∃ k : Nat, ulpExponent m e = e + k :=
    ⟨(ulpExponent m e - e).toNat, by unfold ulpExponent; omega⟩
  have hlow : -1074 ≤ e + k := by
    rw [← hk]
    exact le_max_right _ _
  have hlog : m.log2 ≤ 52 + k := by
    unfold ulpExponent at hk
    omega
  have hhigh : nearestEven m (2 ^ k) ≤ 2 ^ 53 := by
    have hle : m ≤ 2 ^ 53 * 2 ^ k := by
      calc m ≤ 2 ^ (m.log2 + 1) := Nat.lt_log2_self.le
        _ ≤ 2 ^ (53 + k) := Nat.pow_le_pow_right (by norm_num) (by omega)
        _ = 2 ^ 53 * 2 ^ k := Nat.pow_add 2 53 k
    calc nearestEven m (2 ^ k) ≤ nearestEven (2 ^ 53 * 2 ^ k) (2 ^ k) := nearestEven_mono hle _
      _ = 2 ^ 53 := nearestEven_mul_right _ (by positivity)
  have hleading : 2 ^ 52 ≤ nearestEven m (2 ^ k) ∨ e + k = -1074 := by
    by_cases hmin : e + k = -1074
    · exact .inr hmin
    · left
      have hexact : m.log2 = 52 + k := by
        unfold ulpExponent at hk
        omega
      have hbound := (nearestEven_log2_bounds hne (k := k) (by omega)).1
      have hsub : m.log2 - k = 52 := by omega
      rwa [hsub] at hbound
  have hshift : (ulpExponent m e - e).toNat = k := by omega
  have hround : roundWithAccuracy .binary64 s m e .exact =
      let p := shiftToTargetExponent .binary64 (nearestEven m (2 ^ k)) (e + k) .exact
      if h : p.1.mantissa = 0 then .zero s
      else .finite s p.1.mantissa p.2 (Nat.pos_of_ne_zero h) := by
    unfold roundWithAccuracy
    rw [shiftToTarget_ulp, hshift]
    simp only [roundedMantissa_shift]
  obtain ⟨hvalue, hfinite⟩ := value_shifted s hhigh hlow hleading
  rw [← hround] at hvalue hfinite
  exact ⟨k, nearestEven m (2 ^ k), hk, rfl, hhigh, hleading, hvalue, hfinite⟩

section RoundsTo

variable {s : Sign} {m k r : Nat} {e : Int} {u : UnpackedFloat}

lemma RoundsTo.abs_value (h : RoundsTo s m e u k r) : |value u| = r * 2 ^ (e + k) := by
  rw [h.rounded, abs_mul, abs_apply, abs_of_pos (two_zpow_pos _)]

/-- The error is half a unit in the last place at most. -/
lemma RoundsTo.size_error (h : RoundsTo s m e u k r) :
    |(r : ℚ) * 2 ^ (e + k) - m * 2 ^ e| ≤ 2 ^ (e + k) / 2 := by
  have hpos := two_zpow_pos e
  obtain ⟨hup, hdown⟩ := nearestEven_error m (show 0 < 2 ^ k by positivity)
  rw [← h.mantissa] at hup hdown
  have hup' : 2 * ((r : ℚ) * 2 ^ k) ≤ 2 * m + 2 ^ k := by exact_mod_cast hup
  have hdown' : 2 * (m : ℚ) ≤ 2 * (r * 2 ^ k) + 2 ^ k := by exact_mod_cast hdown
  have habs : |(r : ℚ) * 2 ^ k - m| ≤ 2 ^ k / 2 := by
    rw [abs_le]
    constructor <;> linarith
  calc |(r : ℚ) * 2 ^ (e + k) - m * 2 ^ e| = |(r : ℚ) * 2 ^ k - m| * 2 ^ e := by
        rw [two_zpow_add, ← abs_of_pos hpos, ← abs_mul, abs_of_pos hpos]
        ring_nf
    _ ≤ 2 ^ k / 2 * 2 ^ e := mul_le_mul_of_nonneg_right habs hpos.le
    _ = 2 ^ (e + k) / 2 := by
        rw [two_zpow_add]
        ring

lemma RoundsTo.error (h : RoundsTo s m e u k r) :
    |value u - s.apply m * 2 ^ e| ≤ 2 ^ (e + k) / 2 := by
  have hsize := h.size_error
  rw [h.rounded]
  cases s with
  | positive => exact hsize
  | negative =>
    rw [← abs_neg] at hsize
    simp only [Sign.apply]
    push_cast
    convert hsize using 2
    ring

lemma zpow_log2_le (hm : m ≠ 0) (e : Int) : (2 : ℚ) ^ (m.log2 + e) ≤ m * 2 ^ e := by
  have hlog : (2 : ℚ) ^ m.log2 ≤ m := by exact_mod_cast Nat.log2_self_le hm
  rw [zpow_add₀ (by norm_num), zpow_natCast]
  exact mul_le_mul_of_nonneg_right hlog (two_zpow_pos e).le

/-- Relative to the number the error is `2 ^ (-53)` at most, unless the result is tiny. -/
lemma RoundsTo.relative_error (h : RoundsTo s m e u k r) (hm : m ≠ 0) :
    |value u - s.apply m * 2 ^ e| ≤ m * 2 ^ e / 2 ^ 53 ∨
      |value u| ≤ 1 ∧ |value u - s.apply m * 2 ^ e| ≤ 1 / 2 := by
  have herror := h.error
  have hulp := h.exponent
  unfold ulpExponent at hulp
  by_cases hmin : e + k = -1074
  · right
    have htiny : (2 : ℚ) ^ (-1074 : Int) ≤ 1 / 2 ^ 53 := by
      have hle := two_zpow_le (show (-1074 : Int) ≤ -53 by norm_num)
      rwa [zpow_neg (2 : ℚ) 53, ← one_div] at hle
    have hr : (r : ℚ) ≤ 2 ^ 53 := by exact_mod_cast h.high
    constructor
    · rw [h.abs_value, hmin]
      calc (r : ℚ) * 2 ^ (-1074 : Int) ≤ 2 ^ 53 * (1 / 2 ^ 53) :=
            mul_le_mul hr htiny (two_zpow_pos _).le (by norm_num)
        _ = 1 := by norm_num
    · rw [hmin] at herror
      linarith
  · left
    have hexp : e + k = m.log2 + e + (-52 : Int) := by omega
    have hlog := zpow_log2_le hm e
    rw [hexp, zpow_add₀ (by norm_num)] at herror
    calc |value u - s.apply m * 2 ^ e| ≤ 2 ^ ((m.log2 : Int) + e) * 2 ^ (-52 : Int) / 2 := herror
      _ ≤ m * 2 ^ e * 2 ^ (-52 : Int) / 2 := by
          have hpos := two_zpow_pos (-52)
          have hmul := mul_le_mul_of_nonneg_right hlog hpos.le
          linarith
      _ = m * 2 ^ e / 2 ^ 53 := by
          rw [zpow_neg]
          norm_num
          ring

/-- A result is at most `2 ^ 63` when the number is, or lies at most `1024` above. -/
theorem RoundsTo.abs_value_le_iff (h : RoundsTo s m e u k r) (hm : m ≠ 0) :
    |value u| ≤ 2 ^ 63 ↔ (m : ℚ) * 2 ^ e ≤ 2 ^ 63 + 1024 := by
  have hulp := h.exponent
  unfold ulpExponent at hulp
  have hlog := zpow_log2_le hm e
  have hr : (r : ℚ) ≤ 2 ^ 53 := by exact_mod_cast h.high
  have hpos := two_zpow_pos (e + k)
  rw [h.abs_value]
  constructor
  · intro hle
    have hexp : (m.log2 : Int) + e ≤ 63 := by
      by_contra hnot
      have hleading : (2 ^ 52 : ℚ) ≤ r := by
        exact_mod_cast h.leading.resolve_right (by omega)
      have hpow := two_zpow_le (show (12 : Int) ≤ e + k by omega)
      have hmul : (2 ^ 52 : ℚ) * 2 ^ (12 : Int) ≤ r * 2 ^ (e + k) :=
        mul_le_mul hleading hpow (two_zpow_pos _).le (by positivity)
      norm_num at hmul hle
      linarith
    have herror := (abs_le.mp h.size_error).1
    have hpow := two_zpow_le (show e + k ≤ (11 : Int) by omega)
    norm_num at hpow
    linarith
  · intro hle
    have hexp : (m.log2 : Int) + e ≤ 63 := by
      by_contra hnot
      have hpow := two_zpow_le (show (64 : Int) ≤ m.log2 + e by omega)
      norm_num at hpow
      linarith
    by_cases hlow : e + k ≤ 10
    · have hpow := two_zpow_le hlow
      have hmul : (r : ℚ) * 2 ^ (e + k) ≤ 2 ^ 53 * 2 ^ (10 : Int) :=
        mul_le_mul hr hpow hpos.le (by positivity)
      norm_num at hmul ⊢
      linarith
    · -- the tie at `2 ^ 63 + 1024` goes to the even mantissa
      have hlast : e + k = 11 := by omega
      have hdouble : m * 2 ≤ (2 ^ 53 + 1) * 2 ^ k := by
        have hexp : (2 : ℚ) ^ e * 2 ^ k = 2 ^ 11 := by
          rw [← two_zpow_add, hlast]
          norm_num
        have hk : (0 : ℚ) < 2 ^ k := by positivity
        have hscaled := mul_le_mul_of_nonneg_right hle hk.le
        rw [mul_assoc, hexp] at hscaled
        have hcast : (m : ℚ) * 2 ≤ (2 ^ 53 + 1) * 2 ^ k := by linarith
        exact_mod_cast hcast
      have htie : r ≤ 2 ^ 52 := by
        calc r = nearestEven (m * 2) (2 ^ k * 2) := by
              rw [nearestEven_scale _ _ (by norm_num), h.mantissa]
          _ ≤ nearestEven ((2 ^ 53 + 1) * 2 ^ k) (2 ^ k * 2) := nearestEven_mono hdouble _
          _ = nearestEven (2 ^ 53 + 1) 2 := by
              rw [Nat.mul_comm (2 ^ k) 2, nearestEven_scale _ _ (by positivity)]
          _ = 2 ^ 52 := by decide
      have hcast : (r : ℚ) ≤ 2 ^ 52 := by exact_mod_cast htie
      rw [hlast]
      norm_num
      linarith

/-- Far from overflow the result is finite. -/
lemma RoundsTo.isFinite_of_lt (h : RoundsTo s m e u k r) (hm : m ≠ 0)
    (hlt : (m : ℚ) * 2 ^ e < 2 ^ (1022 : Int)) : IsFinite u := by
  have hulp := h.exponent
  unfold ulpExponent at hulp
  have hexp : (m.log2 : Int) + e < 1022 :=
    (zpow_lt_zpow_iff_right₀ (by norm_num)).mp ((zpow_log2_le hm e).trans_lt hlt)
  exact h.finite (by omega) (fun _ => by omega)

end RoundsTo

/-- The product of two numbers is the exact one rounded. -/
theorem roundsTo_mul (s t : Sign) {m m' : Nat} (e e' : Int) (hm : 0 < m) (hm' : 0 < m')
    (hlow : 2 ^ 52 ≤ m') :
    ∃ k r, RoundsTo (s * t) (m * m') (e + e')
      (UnpackedFloat.mul .binary64 (.finite s m e hm) (.finite t m' e' hm')) k r := by
  have hlog : 52 ≤ (m * m').log2 := by
    rw [Nat.le_log2 (by positivity)]
    calc 2 ^ 52 ≤ 1 * m' := by omega
      _ ≤ m * m' := Nat.mul_le_mul_right m' hm
  exact roundsTo_roundWithAccuracy (s * t) hlog

lemma apply_mul (s t : Sign) {m m' : Nat} (e e' : Int) (hm : 0 < m) (hm' : 0 < m') :
    ((s * t).apply (m * m' : Nat) : ℚ) * 2 ^ (e + e') =
      value (.finite s m e hm) * value (.finite t m' e' hm') := by
  have hexp : (2 : ℚ) ^ (e + e') = 2 ^ e * 2 ^ e' := zpow_add₀ (by norm_num) e e'
  have hsign : (s * t).apply (m * m' : Nat) = s.apply m * t.apply m' := by
    rw [Nat.cast_mul]
    cases s with
    | positive =>
      cases t with
      | positive => rfl
      | negative => exact (mul_neg (m : Int) m').symm
    | negative =>
      cases t with
      | positive => exact (neg_mul (m : Int) m').symm
      | negative => exact (neg_mul_neg (m : Int) m').symm
  rw [hexp, hsign]
  unfold value
  push_cast
  ring

/-- A number of the packed form keeps its place when its mantissa is written with 52 zeros more. -/
lemma Canonical.ulpExponent_eq {m : Nat} {e : Int} (h : Canonical m e) (hm : m ≠ 0) :
    ulpExponent (m * 2 ^ 52) (e - 52) = e := by
  have hlow := h.low
  unfold ulpExponent
  rw [log2_mul_pow hm]
  rcases h.leading with hleading | hmin
  · rw [log2_of_mantissa hleading h.mantissa]
    push_cast
    omega
  · have hlog : m.log2 < 53 := (Nat.log2_lt hm).mpr h.mantissa
    push_cast
    omega

/-- So it survives the product with one. -/
lemma Canonical.isFinite_of_roundsTo {s : Sign} {m k r : Nat} {e : Int} {u : UnpackedFloat}
    (hm : m ≠ 0) (h : Canonical m e) (hround : RoundsTo s (m * 2 ^ 52) (e - 52) u k r) :
    IsFinite u := by
  have hlast := hround.exponent
  rw [h.ulpExponent_eq hm] at hlast
  have hk : k = 52 := by omega
  have hr : r = m := by
    rw [hround.mantissa, hk]
    exact nearestEven_mul_right m (by norm_num)
  have hhigh := h.high
  have hmantissa := h.mantissa
  exact hround.finite (by omega) (by omega)

/-! ### Integers -/

section Represents

variable {x : UnpackedFloat} {s : Sign} {a : Nat}

lemma Represents.value_eq (h : Represents x s a 0) : value x = s.apply a := by
  obtain ⟨m, k, hm, rfl, -, -, hval⟩ := h
  have hcast : (m : ℚ) * 2 ^ k = a * 2 ^ 52 := by exact_mod_cast hval
  have hexp : (2 : ℚ) ^ ((k : Int) - 52 + 0) = 2 ^ k / 2 ^ 52 := by
    rw [add_zero, zpow_sub₀ (by norm_num), zpow_natCast]
    norm_num
  have hsize : (m : ℚ) * 2 ^ ((k : Int) - 52 + 0) = a := by
    rw [hexp, ← mul_div_assoc, hcast]
    field_simp
  cases s with
  | positive =>
    rw [value_positive, hsize]
    rfl
  | negative =>
    rw [value_negative, hsize]
    simp [Sign.apply]

lemma Represents.finite (h : Represents x s a 0) (ha : a < 2 ^ 128) : IsFinite x := by
  have hne := h.ne_zero
  obtain ⟨m, k, hm, rfl, hlow, hhigh, hval⟩ := h
  have hk : k < 128 := by
    rw [log2_of_represents hlow hhigh hval hne]
    exact (Nat.log2_lt hne).mpr ha
  exact .finite s hm ⟨hhigh, by omega, by omega, .inl hlow⟩

end Represents

/-- The size of a packed number, as an integer. -/
theorem toInt64_abs {x : Float.Model} (h : IsFinite x.unpack) :
    x.abs.toInt64 = Int64.ofIntClamp ⌊|value x.unpack|⌋₊ := by
  have habs : IsFinite x.unpack.abs := by
    generalize x.unpack = u at h
    cases h with
    | zero s => exact .zero .positive
    | finite s hm h => exact .finite .positive hm h
  change Int64.ofIntClamp (UnpackedFloat.toInt _ _ (Float.Model.pack x.unpack.abs).unpack) = _
  rw [habs.unpack_pack]
  generalize x.unpack = u at h
  cases h with
  | zero s =>
    rw [show |value (.zero s)| = 0 from abs_zero, Nat.floor_zero]
    rfl
  | finite s hm h =>
    change Int64.ofIntClamp (UnpackedFloat.toInt _ _ (.finite .positive _ _ _)) = _
    rw [toInt_finite, abs_value]
    rfl

end Binary64
