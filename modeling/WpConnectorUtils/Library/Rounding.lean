import Mathlib.Tactic

/-!
# Rounding to 53 significant bits

To nearest, with ties to even, as integers are rounded into binary64. The rounding is monotone,
commutes with powers of two and keeps the binade or reaches its upper end.
-/

namespace Binary64

/-- The integer nearest to `a / d`, the even one of two. -/
def nearestEven (a d : Nat) : Nat :=
  if 2 * (a % d) < d then a / d
  else if d < 2 * (a % d) then a / d + 1
  else a / d + a / d % 2

/-- The nearest natural number of at most 53 significant bits. -/
def roundNat (n : Nat) : Nat := nearestEven n (2 ^ (n.log2 - 52)) * 2 ^ (n.log2 - 52)

lemma nearestEven_bounds (a d : Nat) :
    a / d ≤ nearestEven a d ∧ nearestEven a d ≤ a / d + 1 := by
  unfold nearestEven
  split_ifs <;> omega

/-- The distance to the nearest integer is half of one at most. -/
lemma nearestEven_error (a : Nat) {d : Nat} (hd : 0 < d) :
    2 * (nearestEven a d * d) ≤ 2 * a + d ∧ 2 * a ≤ 2 * (nearestEven a d * d) + d := by
  have hdiv := Nat.div_add_mod a d
  have hmod := Nat.mod_lt a hd
  have hcomm : a / d * d = d * (a / d) := Nat.mul_comm _ _
  have hsucc : (a / d + 1) * d = d * (a / d) + d := by ring
  unfold nearestEven
  split_ifs
  · omega
  · omega
  · rcases Nat.mod_two_eq_zero_or_one (a / d) with h | h
    · rw [h, Nat.add_zero]
      omega
    · rw [h]
      omega

lemma nearestEven_mono {a b : Nat} (h : a ≤ b) (d : Nat) :
    nearestEven a d ≤ nearestEven b d := by
  have hdiv : a / d ≤ b / d := Nat.div_le_div_right h
  by_cases hlt : a / d < b / d
  · have ha := (nearestEven_bounds a d).2
    have hb := (nearestEven_bounds b d).1
    omega
  · have hsame : a / d = b / d := by omega
    have ha := Nat.div_add_mod a d
    have hb := Nat.div_add_mod b d
    have hmod : a % d ≤ b % d := by
      rw [hsame] at ha
      omega
    unfold nearestEven
    rw [hsame]
    split_ifs <;> omega

lemma nearestEven_mul_right (k : Nat) {d : Nat} (hd : 0 < d) : nearestEven (k * d) d = k := by
  unfold nearestEven
  rw [Nat.mul_mod_left, Nat.mul_div_cancel k hd, if_pos (by omega)]

lemma nearestEven_scale (a d : Nat) {c : Nat} (hc : 0 < c) :
    nearestEven (a * c) (d * c) = nearestEven a d := by
  unfold nearestEven
  rw [Nat.mul_mod_mul_right, Nat.mul_div_mul_right a d hc, ← Nat.mul_assoc]
  simp only [Nat.mul_lt_mul_right hc]

lemma log2_mul_pow {n : Nat} (hn : n ≠ 0) (j : Nat) : (n * 2 ^ j).log2 = n.log2 + j := by
  have hne : n * 2 ^ j ≠ 0 := Nat.mul_ne_zero hn (by positivity)
  rw [Nat.log2_eq_iff hne]
  constructor
  · rw [Nat.pow_add]
    exact Nat.mul_le_mul_right _ (Nat.log2_self_le hn)
  · rw [Nat.add_right_comm, Nat.pow_add]
    exact Nat.mul_lt_mul_of_pos_right Nat.lt_log2_self (by positivity)

lemma nearestEven_log2_bounds {n : Nat} (hn : n ≠ 0) {k : Nat} (hk : k ≤ n.log2) :
    2 ^ (n.log2 - k) ≤ nearestEven n (2 ^ k) ∧ nearestEven n (2 ^ k) ≤ 2 ^ (n.log2 + 1 - k) := by
  have hd : 0 < 2 ^ k := by positivity
  have hlow : 2 ^ (n.log2 - k) * 2 ^ k ≤ n := by
    rw [← Nat.pow_add, Nat.sub_add_cancel hk]
    exact Nat.log2_self_le hn
  have hhigh : n ≤ 2 ^ (n.log2 + 1 - k) * 2 ^ k := by
    rw [← Nat.pow_add, Nat.sub_add_cancel (by omega)]
    exact Nat.lt_log2_self.le
  constructor
  · have h := nearestEven_mono hlow (2 ^ k)
    rwa [nearestEven_mul_right _ hd] at h
  · have h := nearestEven_mono hhigh (2 ^ k)
    rwa [nearestEven_mul_right _ hd] at h

lemma roundNat_bounds {n : Nat} (hn : n ≠ 0) :
    2 ^ n.log2 ≤ roundNat n ∧ roundNat n ≤ 2 ^ (n.log2 + 1) := by
  have hk : n.log2 - 52 ≤ n.log2 := Nat.sub_le _ _
  have h := nearestEven_log2_bounds hn hk
  unfold roundNat
  constructor
  · calc 2 ^ n.log2 = 2 ^ (n.log2 - (n.log2 - 52)) * 2 ^ (n.log2 - 52) := by
          rw [← Nat.pow_add, Nat.sub_add_cancel hk]
      _ ≤ _ := Nat.mul_le_mul_right _ h.1
  · calc _ ≤ 2 ^ (n.log2 + 1 - (n.log2 - 52)) * 2 ^ (n.log2 - 52) := Nat.mul_le_mul_right _ h.2
      _ = 2 ^ (n.log2 + 1) := by rw [← Nat.pow_add, Nat.sub_add_cancel (by omega)]

lemma roundNat_of_log2_le {n : Nat} (h : n.log2 ≤ 52) : roundNat n = n := by
  have hk : n.log2 - 52 = 0 := by omega
  have hone := nearestEven_mul_right n Nat.one_pos
  rw [Nat.mul_one] at hone
  unfold roundNat
  rw [hk, Nat.pow_zero, Nat.mul_one, hone]

lemma roundNat_of_lt {n : Nat} (h : n < 2 ^ 53) : roundNat n = n := by
  by_cases hn : n = 0
  · rw [hn]
    rfl
  · have hlog := (Nat.log2_lt hn).mpr h
    exact roundNat_of_log2_le (by omega)

theorem roundNat_mono {a b : Nat} (h : a ≤ b) : roundNat a ≤ roundNat b := by
  by_cases ha : a = 0
  · rw [ha, roundNat_of_log2_le (by simp)]
    exact Nat.zero_le _
  have hb : b ≠ 0 := by omega
  have hlog : a.log2 ≤ b.log2 := (Nat.le_log2 hb).mpr ((Nat.log2_self_le ha).trans h)
  rcases hlog.lt_or_eq with hlt | heq
  · calc roundNat a ≤ 2 ^ (a.log2 + 1) := (roundNat_bounds ha).2
      _ ≤ 2 ^ b.log2 := Nat.pow_le_pow_right (by norm_num) hlt
      _ ≤ roundNat b := (roundNat_bounds hb).1
  · unfold roundNat
    rw [heq]
    exact Nat.mul_le_mul_right _ (nearestEven_mono h _)

theorem roundNat_mul_pow (n j : Nat) : roundNat (n * 2 ^ j) = roundNat n * 2 ^ j := by
  by_cases hn : n = 0
  · rw [hn, Nat.zero_mul, roundNat_of_log2_le (by simp), Nat.zero_mul]
  have hlog := log2_mul_pow hn j
  by_cases hsmall : n.log2 ≤ 52
  · rw [roundNat_of_log2_le hsmall]
    have hk : (n * 2 ^ j).log2 - 52 ≤ j := by omega
    have hsplit : n * 2 ^ j =
        n * 2 ^ (j - ((n * 2 ^ j).log2 - 52)) * 2 ^ ((n * 2 ^ j).log2 - 52) := by
      rw [Nat.mul_assoc, ← Nat.pow_add, Nat.sub_add_cancel hk]
    unfold roundNat
    generalize (n * 2 ^ j).log2 - 52 = k at hsplit
    have hround : nearestEven (n * 2 ^ j) (2 ^ k) = n * 2 ^ (j - k) := by
      rw [hsplit]
      exact nearestEven_mul_right _ (by positivity)
    rw [hround]
    exact hsplit.symm
  · have hk : (n * 2 ^ j).log2 - 52 = n.log2 - 52 + j := by omega
    unfold roundNat
    rw [hk, Nat.pow_add, nearestEven_scale _ _ (by positivity), Nat.mul_assoc]

lemma roundNat_two_pow (j : Nat) : roundNat (2 ^ j) = 2 ^ j := by
  have hone : roundNat 1 = 1 := roundNat_of_log2_le (by decide)
  have hpow := roundNat_mul_pow 1 j
  rwa [hone, Nat.one_mul] at hpow

end Binary64
