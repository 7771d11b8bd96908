import Mathlib
import WpConnectorUtils.Library.Rounding

/-!
# Integers in the binary64 model

The standard library's model of binary64 numbers computes with integers as expected: conversion
of an integer or of its decimal form rounds to nearest, so does a product, and comparison and the
saturating conversion back are exact.
-/

namespace Binary64

open Float.Model Float.Model.UnpackedFloat

/-- Finite numbers as the model keeps them: the mantissa has 53 bits and `n * 2 ^ e` is meant. -/
def Represents (x : UnpackedFloat) (s : Sign) (n : Nat) (e : Int) : Prop :=
  ∃ (m k : Nat) (hm : 0 < m), x = .finite s m (k - 52 + e) hm ∧ 2 ^ 52 ≤ m ∧ m < 2 ^ 53 ∧
    m * 2 ^ k = n * 2 ^ 52

lemma shift_mantissa (m k : Nat) :
    (ExtendedMantissa.ofMantissaAndAccuracy m .exact >>> (k + 1) : ExtendedMantissa) =
      ⟨m / 2 ^ (k + 1), m / 2 ^ k % 2 != 0, m % 2 ^ k != 0⟩ := by
  change (k + 1).repeat ExtendedMantissa.shiftRightOne ⟨m, false, false⟩ = _
  induction k with
  | zero => simp [Nat.repeat, ExtendedMantissa.shiftRightOne, Nat.mod_one]
  | succ k ih =>
    rw [Nat.repeat, ih]
    have hdiv : m / 2 ^ (k + 1) / 2 = m / 2 ^ (k + 2) := by
      rw [Nat.div_div_eq_div_mul, ← Nat.pow_succ]
    have hmod : m % 2 ^ (k + 1) = m % 2 ^ k + 2 ^ k * (m / 2 ^ k % 2) := Nat.mod_pow_succ
    have hsticky : (m / 2 ^ k % 2 != 0 || m % 2 ^ k != 0) = (m % 2 ^ (k + 1) != 0) := by
      rw [hmod]
      rcases Nat.mod_two_eq_zero_or_one (m / 2 ^ k) with h | h
      · simp [h]
      · have hpos : 0 < 2 ^ k := by positivity
        simp [h]
    simp only [ExtendedMantissa.shiftRightOne, hdiv, hsticky]

lemma roundedMantissa_eq (m : Nat) (roundBit stickyBit : Bool) :
    (ExtendedMantissa.mk m roundBit stickyBit).roundedMantissa =
      if roundBit then (if stickyBit then m + 1 else m + m % 2) else m := by
  cases roundBit <;> cases stickyBit <;> rfl

/-- The shift of a mantissa rounds to nearest. -/
lemma roundedMantissa_shift (m k : Nat) :
    (ExtendedMantissa.ofMantissaAndAccuracy m .exact >>> k : ExtendedMantissa).roundedMantissa =
      nearestEven m (2 ^ k) := by
  cases k with
  | zero =>
    have hone := nearestEven_mul_right m Nat.one_pos
    rw [Nat.mul_one] at hone
    rw [Nat.pow_zero, hone]
    rfl
  | succ k =>
    have hmod : m % 2 ^ (k + 1) = m % 2 ^ k + 2 ^ k * (m / 2 ^ k % 2) := Nat.mod_pow_succ
    have hlt : m % 2 ^ k < 2 ^ k := Nat.mod_lt _ (by positivity)
    have hpow : 2 ^ (k + 1) = 2 * 2 ^ k := Nat.pow_succ'
    rw [shift_mantissa, roundedMantissa_eq]
    unfold nearestEven
    rcases Nat.mod_two_eq_zero_or_one (m / 2 ^ k) with h | h
    · rw [h, Nat.mul_zero] at hmod
      rw [h, if_neg (by decide), if_pos (by omega)]
    · rw [h, Nat.mul_one] at hmod
      rw [h, if_pos (by decide)]
      by_cases hzero : m % 2 ^ k = 0
      · rw [if_neg (by simp [hzero]), if_neg (by omega), if_neg (by omega)]
      · rw [if_pos (by simpa using hzero), if_neg (by omega), if_pos (by omega)]

lemma shiftToTarget_eq {m k : Nat} {e : Int} (hlog : m.log2 = 52 + k) (he : -1074 ≤ e) :
    shiftToTargetExponent .binary64 m e .exact =
      (ExtendedMantissa.ofMantissaAndAccuracy m .exact >>> k, e + k) := by
  have htarget : Format.binary64.targetExponent (totalExponent m e) = k + e := by
    unfold Format.targetExponent Format.minExponent Format.mantissaBits totalExponent
    rw [hlog]
    push_cast
    omega
  have hshift : ((k : Int) + e - e).toNat = k := by omega
  unfold shiftToTargetExponent shiftToExponent
  simp only [htarget, hshift]

/-- A mantissa rounded up to 54 bits is shifted once more, without loss. -/
lemma represents_carry (s : Sign) {r k : Nat} {e : Int} (hlow : 2 ^ 52 ≤ r) (hhigh : r ≤ 2 ^ 53)
    (he : -1074 ≤ e) :
    let p := shiftToTargetExponent .binary64 r (e + k) .exact
    Represents (if h : p.1.mantissa = 0 then .zero s
      else .finite s p.1.mantissa p.2 (Nat.pos_of_ne_zero h)) s (r * 2 ^ k) e := by
  intro p
  rcases hhigh.lt_or_eq with hlt | rfl
  · have hlog : r.log2 = 52 + 0 := (Nat.log2_eq_iff (by omega)).mpr ⟨hlow, hlt⟩
    have hp : p = (⟨r, false, false⟩, e + k + (0 : Nat)) := shiftToTarget_eq hlog (by omega)
    refine ⟨r, k + 52, by omega, ?_, hlow, hlt, ?_⟩
    · rw [hp]
      dsimp only
      rw [dif_neg (by omega)]
      congr 1
      push_cast
      omega
    · rw [Nat.pow_add, Nat.mul_assoc]
  · have hlog : (2 ^ 53).log2 = 52 + 1 := Nat.log2_two_pow
    have hp : p = (⟨2 ^ 53 / 2, 2 ^ 53 % 2 != 0, false || false⟩, e + k + (1 : Nat)) :=
      shiftToTarget_eq hlog (by omega)
    refine ⟨2 ^ 52, k + 53, by norm_num, ?_, le_rfl, by norm_num, ?_⟩
    · rw [hp]
      dsimp only
      rw [dif_neg (by norm_num)]
      congr 1
      push_cast
      omega
    · rw [Nat.pow_add]
      ring

/-- The model rounds an exact mantissa of at least 53 bits to nearest. -/
theorem represents_roundWithAccuracy (s : Sign) {m : Nat} {e : Int} (hm : 52 ≤ m.log2)
    (he : -1074 ≤ e) : Represents (roundWithAccuracy .binary64 s m e .exact) s (roundNat m) e := by
  obtain ⟨k, hk⟩ : ∃ k, m.log2 = 52 + k := Nat.exists_eq_add_of_le hm
  have hne : m ≠ 0 := by
    rintro rfl
    simp at hm
  have hlow : 2 ^ 52 ≤ nearestEven m (2 ^ k) := by
    have h := (nearestEven_log2_bounds hne (k := k) (by omega)).1
    have hexp : m.log2 - k = 52 := by omega
    rwa [hexp] at h
  have hhigh : nearestEven m (2 ^ k) ≤ 2 ^ 53 := by
    have h := (nearestEven_log2_bounds hne (k := k) (by omega)).2
    have hexp : m.log2 + 1 - k = 53 := by omega
    rwa [hexp] at h
  have hround : roundNat m = nearestEven m (2 ^ k) * 2 ^ k := by
    have hsub : m.log2 - 52 = k := by omega
    unfold roundNat
    rw [hsub]
  have hcarry := represents_carry s (k := k) hlow hhigh he
  unfold roundWithAccuracy
  rw [shiftToTarget_eq hk he, hround]
  simp only [roundedMantissa_shift]
  exact hcarry

lemma log2_of_mantissa {m : Nat} (hlow : 2 ^ 52 ≤ m) (hhigh : m < 2 ^ 53) : m.log2 = 52 :=
  (Nat.log2_eq_iff (by omega)).mpr ⟨hlow, hhigh⟩

section Represents

variable {x y : UnpackedFloat} {s t : Sign} {a b : Nat} {e e' : Int}

lemma Represents.ne_zero (h : Represents x s a e) : a ≠ 0 := by
  rintro rfl
  obtain ⟨m, k, hm, -, -, -, hval⟩ := h
  have hpos : 0 < m * 2 ^ k := by positivity
  omega

/-- The exponent is the one of the leading bit. -/
lemma log2_of_represents {m k : Nat} (hlow : 2 ^ 52 ≤ m) (hhigh : m < 2 ^ 53)
    (hval : m * 2 ^ k = a * 2 ^ 52) (ha : a ≠ 0) : k = a.log2 := by
  have hm : (m * 2 ^ k).log2 = 52 + k := by
    rw [log2_mul_pow (by omega), log2_of_mantissa hlow hhigh]
  have hn : (a * 2 ^ 52).log2 = a.log2 + 52 := log2_mul_pow ha 52
  rw [hval] at hm
  omega

/-- A number may be written with another exponent. -/
lemma Represents.rescale {i j : Nat} (h : Represents x s a e) (hval : a * 2 ^ i = b * 2 ^ j)
    (hexp : e - i = e' - j) : Represents x s b e' := by
  have ha := h.ne_zero
  have hb : b ≠ 0 := by
    rintro rfl
    have hpos : 0 < a * 2 ^ i := by positivity
    omega
  obtain ⟨m, k, hm, rfl, hlow, hhigh, hk⟩ := h
  have hshift : m * 2 ^ (k + i) = b * 2 ^ j * 2 ^ 52 := by
    rw [← hval, Nat.pow_add, ← Nat.mul_assoc, hk]
    ring
  have hle : j ≤ k + i := by
    have hlog := log2_of_represents hlow hhigh hshift (by positivity)
    rw [log2_mul_pow hb] at hlog
    omega
  obtain ⟨l, hl⟩ := Nat.exists_eq_add_of_le hle
  refine ⟨m, l, hm, ?_, hlow, hhigh, ?_⟩
  · congr 1
    omega
  · rw [hl, Nat.pow_add] at hshift
    have hpos : 0 < 2 ^ j := by positivity
    apply Nat.eq_of_mul_eq_mul_left hpos
    calc 2 ^ j * (m * 2 ^ l) = m * (2 ^ j * 2 ^ l) := by ring
      _ = 2 ^ j * (b * 2 ^ 52) := by rw [hshift]; ring

theorem Represents.unique (hx : Represents x s a e) (hy : Represents y s a e) : x = y := by
  have ha := hx.ne_zero
  obtain ⟨m, k, hm, rfl, hlow, hhigh, hval⟩ := hx
  obtain ⟨m', k', hm', rfl, hlow', hhigh', hval'⟩ := hy
  have hk := log2_of_represents hlow hhigh hval ha
  have hk' := log2_of_represents hlow' hhigh' hval' ha
  have hsame : k = k' := by omega
  subst hsame
  have hpos : 0 < 2 ^ k := by positivity
  have hmm : m = m' := Nat.eq_of_mul_eq_mul_right hpos (hval.trans hval'.symm)
  subst hmm
  rfl

/-- The sign of a number that is not zero. -/
def signOf (n : Int) : Sign := if n < 0 then .negative else .positive

lemma represents_round (s : Sign) {n : Nat} (hn : n ≠ 0) :
    Represents (UnpackedFloat.round .binary64 s n 0) s (roundNat n) 0 := by
  have hshift : (0 - Format.binary64.targetExponent (totalExponent n 0)).toNat = 52 - n.log2 := by
    unfold Format.targetExponent Format.minExponent Format.mantissaBits totalExponent
    push_cast
    omega
  have hlog := log2_mul_pow hn (52 - n.log2)
  unfold UnpackedFloat.round decreaseExponent
  simp only [hshift, Nat.shiftLeft_eq]
  have hround := represents_roundWithAccuracy s (m := n * 2 ^ (52 - n.log2))
    (e := 0 - ((52 - n.log2 : Nat) : Int)) (by omega) (by omega)
  rw [roundNat_mul_pow] at hround
  exact hround.rescale (i := 0) (j := 52 - n.log2) (by ring) (by omega)

lemma signOf_apply (s : Sign) {n : Nat} (hn : n ≠ 0) : signOf (s.apply n) = s := by
  unfold signOf
  cases s with
  | positive =>
    change (if (n : Int) < 0 then _ else _) = _
    rw [if_neg (by omega)]
  | negative =>
    change (if -(n : Int) < 0 then _ else _) = _
    rw [if_pos (by omega)]

@[simp] lemma natAbs_apply (s : Sign) (n : Nat) : (s.apply n).natAbs = n := by
  cases s with
  | positive => exact Int.natAbs_natCast n
  | negative => exact Int.natAbs_neg n

/-- An integer is normalized to the nearest number. -/
theorem represents_normalize {n : Int} (hn : n ≠ 0) (zeroSign : Sign) :
    Represents (UnpackedFloat.normalize .binary64 n 0 zeroSign) (signOf n) (roundNat n.natAbs) 0 := by
  unfold UnpackedFloat.normalize signOf
  rcases lt_trichotomy n 0 with hneg | hzero | hpos
  · have habs : (-n).toNat = n.natAbs := by omega
    rw [Int.compare_eq_lt.mpr hneg, if_pos hneg]
    dsimp only
    rw [habs]
    exact represents_round .negative (by omega)
  · exact absurd hzero hn
  · have habs : n.toNat = n.natAbs := by omega
    rw [Int.compare_eq_gt.mpr hpos, if_neg (by omega)]
    dsimp only
    rw [habs]
    exact represents_round .positive (by omega)

/-- Conversion of an integer rounds it to nearest. -/
lemma represents_ofInt {n : Int} (hn : n ≠ 0) :
    Represents (UnpackedFloat.ofInt .binary64 n) (signOf n) (roundNat n.natAbs) 0 :=
  represents_normalize hn _

/-- So does conversion of a decimal integer. -/
theorem represents_ofScientific {n : Nat} (hn : n ≠ 0) :
    Represents (UnpackedFloat.ofScientific .binary64 n 0) .positive (roundNat n) 0 := by
  have hlog := log2_mul_pow hn 53
  have hround := represents_roundWithAccuracy .positive (m := n * 2 ^ 53) (e := -53)
    (by omega) (by omega)
  rw [roundNat_mul_pow] at hround
  have hmul : UnpackedFloat.ofScientific .binary64 n 0 =
      roundWithAccuracy .binary64 .positive (n * 2 ^ 53) (-53) .exact := by
    have hbits : Format.binary64.exponentBits = 11 := rfl
    unfold UnpackedFloat.ofScientific
    rw [hbits, dif_neg hn, if_neg (by norm_num), if_neg (by omega), if_pos le_rfl]
    change roundWithAccuracy .binary64 .positive (n <<< 53 * 1) (-53 + 0) .exact = _
    rw [Nat.shiftLeft_eq, Nat.mul_one]
    rfl
  rw [hmul]
  exact hround.rescale (i := 0) (j := 53) (by ring) (by norm_num)

/-- A product is the exact one rounded. -/
theorem Represents.mul (hx : Represents x s a 0) (hy : Represents y t b 0) :
    Represents (UnpackedFloat.mul .binary64 x y) (s * t) (roundNat (a * b)) 0 := by
  obtain ⟨m, k, hm, rfl, hlow, -, hval⟩ := hx
  obtain ⟨m', k', hm', rfl, hlow', -, hval'⟩ := hy
  have hlog : 52 ≤ (m * m').log2 := by
    rw [Nat.le_log2 (by positivity)]
    calc 2 ^ 52 ≤ m * 1 := by omega
      _ ≤ m * m' := Nat.mul_le_mul_left m hm'
  have hround := represents_roundWithAccuracy (s * t) (m := m * m')
    (e := (k : Int) - 52 + 0 + ((k' : Int) - 52 + 0)) hlog (by omega)
  have hscale : m * m' * 2 ^ (k + k') = a * b * 2 ^ 104 := by
    calc m * m' * 2 ^ (k + k') = (m * 2 ^ k) * (m' * 2 ^ k') := by rw [Nat.pow_add]; ring
      _ = a * b * 2 ^ 104 := by rw [hval, hval']; ring
  have hsame : roundNat (m * m') * 2 ^ (k + k') = roundNat (a * b) * 2 ^ 104 := by
    rw [← roundNat_mul_pow, ← roundNat_mul_pow, hscale]
  exact hround.rescale hsame (by push_cast; omega)

/-! ### Comparison and conversion back -/

/-- The order of two numbers of one sign, from the order of their sizes. -/
def orient : Sign → Ordering → Ordering
  | .positive, order => order
  | .negative, order => order.swap

lemma Represents.compare_eq (hx : Represents x s a 0) (hy : Represents y s b 0) :
    x.compare y = some (orient s (compare a b)) := by
  have ha := hx.ne_zero
  have hb := hy.ne_zero
  obtain ⟨m, k, hm, rfl, hlow, hhigh, hval⟩ := hx
  obtain ⟨m', k', hm', rfl, hlow', hhigh', hval'⟩ := hy
  have hk := log2_of_represents hlow hhigh hval ha
  have hk' := log2_of_represents hlow' hhigh' hval' hb
  have horder : (compare ((k : Int) - 52 + 0) ((k' : Int) - 52 + 0)).then (compare m m') =
      compare a b := by
    rcases lt_trichotomy k k' with hlt | heq | hgt
    · have hab : a < b := by
        by_contra hnot
        have hle : b.log2 ≤ a.log2 :=
          (Nat.le_log2 ha).mpr ((Nat.log2_self_le hb).trans (by omega))
        omega
      rw [Int.compare_eq_lt.mpr (by omega), Nat.compare_eq_lt.mpr hab]
      rfl
    · subst heq
      have hpos : 0 < 2 ^ k := by positivity
      rw [Int.compare_eq_eq.mpr rfl]
      change compare m m' = compare a b
      rcases lt_trichotomy m m' with hlt | heq | hgt
      · have hmul : m * 2 ^ k < m' * 2 ^ k := Nat.mul_lt_mul_of_pos_right hlt hpos
        rw [Nat.compare_eq_lt.mpr hlt, Nat.compare_eq_lt.mpr (by omega)]
      · subst heq
        rw [Nat.compare_eq_eq.mpr rfl, Nat.compare_eq_eq.mpr (by omega)]
      · have hmul : m' * 2 ^ k < m * 2 ^ k := Nat.mul_lt_mul_of_pos_right hgt hpos
        rw [Nat.compare_eq_gt.mpr hgt, Nat.compare_eq_gt.mpr (by omega)]
    · have hab : b < a := by
        by_contra hnot
        have hle : a.log2 ≤ b.log2 :=
          (Nat.le_log2 hb).mpr ((Nat.log2_self_le ha).trans (by omega))
        omega
      rw [Int.compare_eq_gt.mpr (by omega), Nat.compare_eq_gt.mpr hab]
      rfl
  cases s <;> simp only [UnpackedFloat.compare, horder, orient]

lemma mantissa_shift (m k : Nat) :
    (ExtendedMantissa.ofMantissaAndAccuracy m .exact >>> k : ExtendedMantissa).mantissa =
      m / 2 ^ k := by
  cases k with
  | zero =>
    rw [Nat.pow_zero, Nat.div_one]
    rfl
  | succ k => rw [shift_mantissa]

/-- An integer is converted back without loss. -/
lemma Represents.toInt_eq (h : Represents x s a 0) (low high : Int) :
    x.toInt low high = s.apply a := by
  obtain ⟨m, k, hm, rfl, -, -, hval⟩ := h
  have hleft : ((k : Int) - 52 + 0 - 0).toNat = k - 52 := by omega
  have hright : (0 - ((k : Int) - 52 + 0 - ((k - 52 : Nat) : Int))).toNat = 52 - k := by omega
  have hmantissa : m * 2 ^ (k - 52) / 2 ^ (52 - k) = a := by
    have hpos : 0 < 2 ^ (52 - k) := by positivity
    apply Nat.div_eq_of_eq_mul_left hpos
    by_cases hk : k ≤ 52
    · have hzero : k - 52 = 0 := by omega
      have hpow : 2 ^ (52 - k) * 2 ^ k = 2 ^ 52 := by
        rw [← Nat.pow_add, Nat.sub_add_cancel hk]
      rw [hzero, Nat.pow_zero, Nat.mul_one]
      apply Nat.eq_of_mul_eq_mul_right (show 0 < 2 ^ k by positivity)
      rw [hval, Nat.mul_assoc, hpow]
    · have hzero : 52 - k = 0 := by omega
      have hpow : 2 ^ (k - 52) * 2 ^ 52 = 2 ^ k := by
        rw [← Nat.pow_add, Nat.sub_add_cancel (by omega)]
      rw [hzero, Nat.pow_zero, Nat.mul_one]
      apply Nat.eq_of_mul_eq_mul_right (show 0 < 2 ^ 52 by positivity)
      rw [← hval, Nat.mul_assoc, hpow]
  unfold UnpackedFloat.toInt roundToInt decreaseExponent shiftToExponent
  simp only [hleft, hright, mantissa_shift, Nat.shiftLeft_eq, hmantissa]

/-- The packed form of a number with 53 bits keeps it. -/
lemma unpack_pack_normal (s : Sign) {m : Nat} {e : Int} (hm : 0 < m) (hlow : 2 ^ 52 ≤ m)
    (hhigh : m < 2 ^ 53) (he : -1074 ≤ e) (he' : e ≤ 971) :
    UnpackedFloat.unpack .binary64 (UnpackedFloat.pack .binary64 (.finite s m e hm)) =
      .finite s m e hm := by
  obtain ⟨k, hk⟩ : ∃ k : Nat, e + 1075 = k := ⟨(e + 1075).toNat, by omega⟩
  have hbiased : (e + Format.binary64.exponentBias +
      Format.binary64.mantissaBitsWithoutImplicit).toNat = k := by
    have hbias : Format.binary64.exponentBias = 1023 := rfl
    have hbits : Format.binary64.mantissaBitsWithoutImplicit = 52 := rfl
    omega
  have hlog := log2_of_mantissa hlow hhigh
  have hexp : (BitVec.ofNat 11 k).toNat = k := by
    rw [BitVec.toNat_ofNat, Nat.mod_eq_of_lt (by omega)]
  have hinf : BitVec.ofNat 11 k ≠ -1#11 := by
    intro heq
    have hnat := congrArg BitVec.toNat heq
    rw [hexp] at hnat
    have hmax : (-1#11).toNat = 2047 := rfl
    omega
  have hzero : BitVec.ofNat 11 k ≠ 0#11 := by
    intro heq
    have hnat := congrArg BitVec.toNat heq
    rw [hexp, BitVec.toNat_zero] at hnat
    omega
  have hmantissa : (1#1 ++ BitVec.ofNat 52 m).toNat = m := by
    have hlt := (BitVec.ofNat 52 m).isLt
    rw [BitVec.toNat_append, ← Nat.shiftLeft_add_eq_or_of_lt hlt, BitVec.toNat_ofNat,
      Nat.shiftLeft_eq]
    change 1 * 2 ^ 52 + m % 2 ^ 52 = m
    omega
  have hpack : UnpackedFloat.pack .binary64 (.finite s m e hm) =
      packComponents .binary64 s (BitVec.ofNat 11 k) (BitVec.ofNat 52 m) := by
    unfold UnpackedFloat.pack
    dsimp only
    rw [hbiased, if_neg (by omega), if_pos (by rw [hlog]; rfl)]
  rw [hpack]
  unfold UnpackedFloat.unpack
  have hexponent : (k : Int) - (Format.binary64.exponentBias + (52 : Nat)) = e := by
    have hbias : Format.binary64.exponentBias = 1023 := rfl
    omega
  simp only [unpackMantissa_packComponents, unpackExponent_packComponents, unpackSign_packComponents,
    Sign.ofBitVec_toBitVec]
  rw [if_neg hinf, if_neg hzero]
  simp only [hmantissa, hexp, hexponent]

/-- Far from overflow, the packed form keeps the number. -/
theorem Represents.unpack_pack (h : Represents x s a 0) (ha : a < 2 ^ 128) :
    UnpackedFloat.unpack .binary64 (UnpackedFloat.pack .binary64 x) = x := by
  have hne := h.ne_zero
  obtain ⟨m, k, hm, rfl, hlow, hhigh, hval⟩ := h
  have hk : k < 128 := by
    rw [log2_of_represents hlow hhigh hval hne]
    exact (Nat.log2_lt hne).mpr ha
  exact unpack_pack_normal s hm hlow hhigh (by omega) (by omega)

end Represents

/-! ### Packed numbers -/

/-- The packed number `x` is the integer `± n`, which is not zero. -/
def IsInteger (x : Float.Model) (s : Sign) (n : Nat) : Prop := Represents x.unpack s n 0

section IsInteger

variable {x y : Float.Model} {s t : Sign} {a b : Nat}

lemma isInteger_pack {u : UnpackedFloat} (h : Represents u s a 0) (ha : a < 2 ^ 128) :
    IsInteger (Float.Model.pack u) s a := by
  have hunpack : (Float.Model.pack u).unpack = u := h.unpack_pack ha
  unfold IsInteger
  rw [hunpack]
  exact h

lemma roundNat_lt {n : Nat} (h : n < 2 ^ 127) : roundNat n < 2 ^ 128 := by
  calc roundNat n ≤ roundNat (2 ^ 127) := roundNat_mono h.le
    _ = 2 ^ 127 := roundNat_two_pow 127
    _ < 2 ^ 128 := by norm_num

theorem isInteger_ofInt {n : Int} (hn : n ≠ 0) (hlt : n.natAbs < 2 ^ 127) :
    IsInteger (Float.Model.ofInt n) (signOf n) (roundNat n.natAbs) :=
  isInteger_pack (represents_ofInt hn) (roundNat_lt hlt)

theorem IsInteger.mul (hx : IsInteger x s a) (hy : IsInteger y t b) (hlt : a * b < 2 ^ 127) :
    IsInteger (x * y) (s * t) (roundNat (a * b)) :=
  isInteger_pack (Represents.mul hx hy) (roundNat_lt hlt)

lemma IsInteger.abs (h : IsInteger x s a) (ha : a < 2 ^ 128) : IsInteger x.abs .positive a := by
  obtain ⟨m, k, hm, hx, hlow, hhigh, hval⟩ := h
  have hrep : Represents x.unpack.abs .positive a 0 := by
    rw [hx]
    exact ⟨m, k, hm, rfl, hlow, hhigh, hval⟩
  exact isInteger_pack hrep ha

lemma IsInteger.isFinite (h : IsInteger x s a) : x.isFinite = true := by
  obtain ⟨m, k, hm, hx, -⟩ := h
  unfold Float.Model.isFinite
  rw [hx]
  rfl

lemma IsInteger.toInt64 (h : IsInteger x s a) : x.toInt64 = Int64.ofIntClamp (s.apply a) := by
  unfold Float.Model.toInt64 UnpackedFloat.toInt64
  rw [Represents.toInt_eq h]

/-- Comparison is that of the integers. -/
theorem IsInteger.lt_iff (hx : IsInteger x s a) (hy : IsInteger y t b) :
    x < y ↔ s.apply a < t.apply b := by
  change (x.unpack.compare y.unpack == some Ordering.lt) = true ↔ _
  rw [beq_iff_eq]
  have hpos : 0 < a := Nat.pos_of_ne_zero (Represents.ne_zero hx)
  have hpos' : 0 < b := Nat.pos_of_ne_zero (Represents.ne_zero hy)
  by_cases hsign : s = t
  · subst hsign
    rw [Represents.compare_eq hx hy, Option.some_inj]
    cases s with
    | positive =>
      rw [orient, Nat.compare_eq_lt]
      exact Int.ofNat_lt.symm
    | negative =>
      rw [orient, Ordering.swap_eq_lt, Nat.compare_eq_gt]
      change _ ↔ -(a : Int) < -(b : Int)
      omega
  · obtain ⟨m, k, hm, hxm, -⟩ := hx
    obtain ⟨m', k', hm', hym, -⟩ := hy
    rw [hxm, hym]
    cases s with
    | positive =>
      cases t with
      | positive => exact absurd rfl hsign
      | negative =>
        change some Ordering.gt = some Ordering.lt ↔ (a : Int) < -(b : Int)
        constructor
        · exact nofun
        · omega
    | negative =>
      cases t with
      | positive =>
        change some Ordering.lt = some Ordering.lt ↔ -(a : Int) < (b : Int)
        constructor
        · omega
        · exact fun _ => rfl
      | negative => exact absurd rfl hsign

/-- The decimal form of a natural number is converted like the number. -/
theorem ofScientific_eq_ofInt (n : Nat) : Float.Model.ofScientific n 0 = Float.Model.ofInt n := by
  by_cases hn : n = 0
  · subst hn
    rfl
  · have hint := represents_ofInt (n := n) (by omega)
    have hsign : signOf (n : Int) = .positive := if_neg (by omega)
    rw [hsign, Int.natAbs_natCast] at hint
    exact congrArg Float.Model.pack ((represents_ofScientific hn).unique hint)

theorem neg_ofInt {n : Int} (hn : 0 < n) (hlt : n.natAbs < 2 ^ 127) :
    Float.Model.neg (Float.Model.ofInt n) = Float.Model.ofInt (-n) := by
  have hpos := isInteger_ofInt (ne_of_gt hn) hlt
  have hneg := represents_ofInt (n := -n) (by omega)
  have hsign : signOf n = .positive := if_neg (by omega)
  have hsign' : signOf (-n) = .negative := if_pos (by omega)
  rw [hsign] at hpos
  rw [hsign', Int.natAbs_neg] at hneg
  obtain ⟨m, k, hm, hx, hlow, hhigh, hval⟩ := hpos
  have hrep : Represents (Float.Model.ofInt n).unpack.neg .negative (roundNat n.natAbs) 0 := by
    rw [hx]
    exact ⟨m, k, hm, rfl, hlow, hhigh, hval⟩
  exact congrArg Float.Model.pack (hrep.unique hneg)

end IsInteger

end Binary64
