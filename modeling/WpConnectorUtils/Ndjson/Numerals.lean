import Mathlib.Data.List.TakeWhile
import WpConnectorUtils.Library.Binary64
import WpConnectorUtils.Ndjson.Scalars

/-!
# Decimal numerals

The texts that stand for numbers, and that both text parsers read them: `str::parse::<i64>` digits
with a sign or none, `str::parse::<f64>` also a point and an exponent.
-/

namespace WpConnectorUtils.Ndjson
open Arrow Binary64

/-! ### Digits -/

def IsDigits (text : List Char) : Prop := text ≠ [] ∧ ∀ c ∈ text, c.isDigit = true

/-- The number that digits spell. -/
def digitsValue (text : List Char) : Nat := Nat.ofDigitChars 10 text 0

lemma isDigits_toDigits (n : Nat) : IsDigits (Nat.toDigits 10 n) := by
  refine ⟨Nat.toDigits_ne_nil, ?_⟩
  intro c hc
  exact Nat.isDigit_of_mem_toDigits (by decide) (by decide) hc

lemma digitsValue_toDigits (n : Nat) : digitsValue (Nat.toDigits 10 n) = n :=
  Nat.ofDigitChars_ten_toDigits

lemma parseDigits_eq {text : List Char} (h : IsDigits text) :
    parseDigits text = some (digitsValue text) := by
  unfold parseDigits digitsValue
  rw [if_pos ⟨h.1, List.all_eq_true.mpr h.2⟩, Nat.ofDigitChars_eq_foldl]

/-- Digits begin with a digit. -/
lemma IsDigits.ne_cons {text rest : List Char} {c : Char} (h : IsDigits text)
    (hc : c.isDigit = false) : text ≠ c :: rest := by
  rintro rfl
  rw [h.2 c List.mem_cons_self] at hc
  cases hc

/-- A digit is its own lower case. -/
lemma toLower_of_isDigit {c : Char} (h : c.isDigit = true) : c.toLower = c := by
  have hle : c.val ≤ '9'.val := of_decide_eq_true ((Bool.and_eq_true _ _).mp h).2
  have hnot : ¬(c.val ≥ 'A'.val ∧ c.val ≤ 'Z'.val) := by
    intro hupper
    exact absurd (UInt32.le_trans hupper.1 hle) (by decide)
  unfold Char.toLower
  rw [dif_neg hnot]

lemma map_toLower_of_isDigit {text : List Char} (h : ∀ c ∈ text, c.isDigit = true) :
    text.map Char.toLower = text := by
  calc text.map Char.toLower = text.map id := by
        apply List.map_congr_left
        intro c hc
        exact toLower_of_isDigit (h c hc)
    _ = text := List.map_id text

/-- What does not begin with a digit ends a run of digits. -/
lemma takeWhile_digits {digits rest : List Char} (hdigits : ∀ c ∈ digits, c.isDigit = true)
    (hrest : ∀ c ∈ rest.head?, c.isDigit = false) :
    (digits ++ rest).takeWhile Char.isDigit = digits ∧
      (digits ++ rest).dropWhile Char.isDigit = rest := by
  rw [List.takeWhile_append_of_pos hdigits, List.dropWhile_append_of_pos hdigits]
  cases rest with
  | nil => simp
  | cons c rest => simp [hrest c rfl]

/-! ### Signs -/

inductive NumeralSign
  | none
  | plus
  | minus
  deriving DecidableEq

namespace NumeralSign

def text : NumeralSign → List Char
  | none => []
  | plus => ['+']
  | minus => ['-']

def apply : NumeralSign → Int → Int
  | minus, n => -n
  | _, n => n

def applyF64 : NumeralSign → F64 → F64
  | minus, x => x.neg
  | _, x => x

end NumeralSign

/-- Digits after a sign are read as the integer they spell. -/
lemma parseI64_digits (sign : NumeralSign) {digits : List Char} (h : IsDigits digits) :
    parseI64 (String.ofList (sign.text ++ digits)) = i64TryFrom (sign.apply (digitsValue digits)) := by
  unfold parseI64
  rw [String.toList_ofList]
  cases sign with
  | none =>
    dsimp only [NumeralSign.text, List.nil_append]
    split
    · exact absurd rfl (h.ne_cons (by decide))
    · exact absurd rfl (h.ne_cons (by decide))
    · rw [parseDigits_eq h]
      rfl
  | plus =>
    change (parseDigits digits).bind (fun n => i64TryFrom n) = _
    rw [parseDigits_eq h]
    rfl
  | minus =>
    change (parseDigits digits).bind (fun n => i64TryFrom (-n)) = _
    rw [parseDigits_eq h]
    rfl

/-! ### Decimal numbers -/

/-- `e` or `E`, a sign or none, and digits. -/
structure Exponent where
  mark : Char
  sign : NumeralSign
  digits : List Char
  isMark : mark = 'e' ∨ mark = 'E'
  isDigits : IsDigits digits

namespace Exponent

def text (exponent : Exponent) : List Char := exponent.mark :: (exponent.sign.text ++ exponent.digits)

def value (exponent : Exponent) : Int := exponent.sign.apply (digitsValue exponent.digits)

/-- The text in lower case. -/
def lower (exponent : Exponent) : List Char := 'e' :: (exponent.sign.text ++ exponent.digits)

lemma map_toLower (exponent : Exponent) : exponent.text.map Char.toLower = exponent.lower := by
  have hsign : exponent.sign.text.map Char.toLower = exponent.sign.text := by
    cases exponent.sign <;> rfl
  unfold text lower
  rw [List.map_cons, List.map_append, hsign, map_toLower_of_isDigit exponent.isDigits.2]
  rcases exponent.isMark with h | h <;> rw [h] <;> rfl

lemma parseExponent_lower (exponent : Exponent) :
    parseExponent exponent.lower = some exponent.value := by
  unfold lower value
  have hdigits := exponent.isDigits
  cases exponent.sign with
  | none =>
    change parseExponent ('e' :: exponent.digits) = _
    unfold parseExponent
    split
    · rename_i h
      cases h
    · rename_i h
      exact absurd (List.cons.inj h).2 (hdigits.ne_cons (by decide))
    · rename_i h
      exact absurd (List.cons.inj h).2 (hdigits.ne_cons (by decide))
    · rename_i h
      rw [← (List.cons.inj h).2, parseDigits_eq hdigits]
      rfl
    · rename_i h
      exact absurd rfl (h exponent.digits)
  | plus =>
    change (parseDigits exponent.digits).map Int.ofNat = _
    rw [parseDigits_eq hdigits]
    rfl
  | minus =>
    change (parseDigits exponent.digits).map (fun n => -Int.ofNat n) = _
    rw [parseDigits_eq hdigits]
    rfl

end Exponent

/-- A sign or none, digits with a point among them or none, and an exponent or none. -/
structure Numeral where
  sign : NumeralSign
  whole : List Char
  fraction : Option (List Char)
  exponent : Option Exponent
  isDigits : IsDigits (whole ++ fraction.getD [])

namespace Numeral

def point (numeral : Numeral) : List Char := (numeral.fraction.map ('.' :: ·)).getD []

def exponentText (numeral : Numeral) : List Char := (numeral.exponent.map Exponent.text).getD []

def text (numeral : Numeral) : String :=
  String.ofList (numeral.sign.text ++ (numeral.whole ++ (numeral.point ++ numeral.exponentText)))

def exponentValue (numeral : Numeral) : Int := (numeral.exponent.map Exponent.value).getD 0

/-- The `f64` of the digits, scaled by the exponent and the place of the point. -/
def value (numeral : Numeral) : F64 :=
  numeral.sign.applyF64 (Float.Model.ofScientific (digitsValue (numeral.whole ++ numeral.fraction.getD []))
    (numeral.exponentValue - (numeral.fraction.getD []).length))

/-- What follows the digits and the point, in lower case. -/
def lowerExponent (numeral : Numeral) : List Char := (numeral.exponent.map Exponent.lower).getD []

lemma parseExponent_lowerExponent (numeral : Numeral) :
    parseExponent numeral.lowerExponent = some numeral.exponentValue := by
  unfold lowerExponent exponentValue
  cases numeral.exponent with
  | none => rfl
  | some exponent => exact exponent.parseExponent_lower

lemma lowerExponent_head (numeral : Numeral) : ∀ c ∈ numeral.lowerExponent.head?, c = 'e' := by
  unfold lowerExponent
  cases numeral.exponent with
  | none => simp
  | some exponent => simp [Exponent.lower]

lemma isDigit_of_mem (numeral : Numeral) :
    (∀ c ∈ numeral.whole, c.isDigit = true) ∧
      ∀ c ∈ numeral.fraction.getD [], c.isDigit = true :=
  ⟨fun c hc => numeral.isDigits.2 c (List.mem_append_left _ hc),
    fun c hc => numeral.isDigits.2 c (List.mem_append_right _ hc)⟩

/-- The parser takes the digits apart where the point stands. -/
lemma parseDecimal_eq (numeral : Numeral) :
    parseDecimal (numeral.whole ++ (numeral.point ++ numeral.lowerExponent)) =
      some (Float.Model.ofScientific (digitsValue (numeral.whole ++ numeral.fraction.getD []))
        (numeral.exponentValue - (numeral.fraction.getD []).length)) := by
  obtain ⟨hwhole, hfraction⟩ := numeral.isDigit_of_mem
  have hexponent : ∀ c ∈ numeral.lowerExponent.head?, c.isDigit = false := by
    intro c hc
    rw [numeral.lowerExponent_head c hc]
    rfl
  have hdigits := parseDigits_eq numeral.isDigits
  have hvalue := numeral.parseExponent_lowerExponent
  unfold parseDecimal point
  cases hpoint : numeral.fraction with
  | none =>
    rw [hpoint] at hdigits
    obtain ⟨htake, hdrop⟩ := takeWhile_digits hwhole hexponent
    have hnot : ∀ rest, numeral.lowerExponent ≠ '.' :: rest := by
      intro rest h
      have hhead := numeral.lowerExponent_head '.' (by rw [h]; rfl)
      cases hhead
    simp only [Option.map_none, Option.getD_none, List.nil_append, List.append_nil] at hdigits ⊢
    rw [htake, hdrop]
    split
    · rename_i h
      exact absurd h (hnot _)
    · rw [List.append_nil, hdigits, hvalue]
      rfl
  | some fraction =>
    rw [hpoint] at hdigits hfraction
    have hpoint' : ∀ c ∈ (('.' :: fraction) ++ numeral.lowerExponent).head?, c.isDigit = false := by
      simp
    obtain ⟨htake, hdrop⟩ := takeWhile_digits hwhole hpoint'
    obtain ⟨htake', hdrop'⟩ := takeWhile_digits hfraction hexponent
    simp only [Option.map_some, Option.getD_some, List.cons_append] at *
    rw [htake, hdrop]
    change ((parseDigits (_ ++ (fraction ++ numeral.lowerExponent).takeWhile Char.isDigit)).bind
      fun n => (parseExponent ((fraction ++ numeral.lowerExponent).dropWhile Char.isDigit)).map
        fun e => Float.Model.ofScientific n
          (e - ((fraction ++ numeral.lowerExponent).takeWhile Char.isDigit).length)) = _
    rw [htake', hdrop', hdigits, hvalue]
    rfl

/-- Without its sign, a numeral begins with a digit or the point. -/
lemma exists_head (numeral : Numeral) (rest : List Char) :
    ∃ c tail, numeral.whole ++ (numeral.point ++ rest) = c :: tail ∧ (c.isDigit = true ∨ c = '.') := by
  cases hwhole : numeral.whole with
  | cons c tail =>
    have hc : c.isDigit = true := numeral.isDigit_of_mem.1 c (by simp [hwhole])
    exact ⟨c, tail ++ (numeral.point ++ rest), rfl, .inl hc⟩
  | nil =>
    cases hfraction : numeral.fraction with
    | none =>
      have hne := numeral.isDigits.1
      rw [hwhole, hfraction] at hne
      exact absurd rfl hne
    | some fraction =>
      refine ⟨'.', fraction ++ rest, ?_, .inr rfl⟩
      unfold point
      rw [hfraction]
      rfl

/-- So it is no word that begins with another character. -/
lemma ne_word (numeral : Numeral) (rest : List Char) {word : List Char}
    (hword : ∀ c ∈ word.head?, c.isDigit = false ∧ c ≠ '.') :
    numeral.whole ++ (numeral.point ++ rest) ≠ word := by
  rintro rfl
  obtain ⟨c, tail, hhead, hc⟩ := numeral.exists_head rest
  rw [hhead] at hword
  obtain ⟨hdigit, hpoint⟩ := hword c rfl
  rcases hc with hc | hc
  · rw [hc] at hdigit
    cases hdigit
  · exact hpoint hc

lemma map_toLower_body (numeral : Numeral) :
    (numeral.whole ++ (numeral.point ++ numeral.exponentText)).map Char.toLower =
      numeral.whole ++ (numeral.point ++ numeral.lowerExponent) := by
  obtain ⟨hwhole, hfraction⟩ := numeral.isDigit_of_mem
  have hpoint : numeral.point.map Char.toLower = numeral.point := by
    unfold point
    cases h : numeral.fraction with
    | none => rfl
    | some fraction =>
      rw [h] at hfraction
      exact congrArg ('.' :: ·) (map_toLower_of_isDigit hfraction)
  have hexponent : numeral.exponentText.map Char.toLower = numeral.lowerExponent := by
    unfold exponentText lowerExponent
    cases numeral.exponent with
    | none => rfl
    | some exponent => exact exponent.map_toLower
  rw [List.map_append, List.map_append, map_toLower_of_isDigit hwhole, hpoint, hexponent]

lemma parseUnsignedF64_eq (numeral : Numeral) :
    parseUnsignedF64 (numeral.whole ++ (numeral.point ++ numeral.exponentText)) =
      some (Float.Model.ofScientific (digitsValue (numeral.whole ++ numeral.fraction.getD []))
        (numeral.exponentValue - (numeral.fraction.getD []).length)) := by
  unfold parseUnsignedF64
  rw [numeral.map_toLower_body]
  dsimp only
  rw [if_neg (not_or.mpr ⟨numeral.ne_word _ (by simp), numeral.ne_word _ (by simp)⟩),
    if_neg (numeral.ne_word _ (by simp)), numeral.parseDecimal_eq]

/-- `str::parse::<f64>` reads every numeral. -/
theorem parseF64_text (numeral : Numeral) : parseF64 numeral.text = some numeral.value := by
  have hbody := numeral.parseUnsignedF64_eq
  unfold parseF64 text value
  rw [String.toList_ofList]
  cases numeral.sign with
  | plus => exact hbody
  | minus =>
    change (parseUnsignedF64 (numeral.whole ++ (numeral.point ++ numeral.exponentText))).map
      Float.Model.neg = _
    rw [hbody]
    rfl
  | none =>
    dsimp only [NumeralSign.text, List.nil_append]
    split
    · rename_i h
      exact absurd h (numeral.ne_word _ (by simp))
    · rename_i h
      exact absurd h (numeral.ne_word _ (by simp))
    · exact hbody

/-- An integer, without point and exponent. -/
def ofDigits (sign : NumeralSign) {digits : List Char} (h : IsDigits digits) : Numeral :=
  ⟨sign, digits, none, none, by simpa using h⟩

lemma text_ofDigits (sign : NumeralSign) {digits : List Char} (h : IsDigits digits) :
    (ofDigits sign h).text = String.ofList (sign.text ++ digits) := by
  simp [ofDigits, text, point, exponentText]

lemma value_ofDigits (sign : NumeralSign) {digits : List Char} (h : IsDigits digits) :
    (ofDigits sign h).value = sign.applyF64 (Float.Model.ofInt (digitsValue digits)) := by
  rw [← ofScientific_eq_ofInt]
  simp [ofDigits, value, exponentValue]

end Numeral

/-! ### Decimal forms of integers -/

/-- The sign of the decimal form of an integer. -/
def decimalSign (n : Int) : NumeralSign := if n < 0 then .minus else .none

lemma apply_decimalSign (n : Int) : (decimalSign n).apply n.natAbs = n := by
  unfold decimalSign
  split
  · change -(n.natAbs : Int) = n
    omega
  · change (n.natAbs : Int) = n
    omega

lemma toString_eq (n : Int) :
    toString n = String.ofList ((decimalSign n).text ++ Nat.toDigits 10 n.natAbs) := by
  rw [← String.toList_inj, String.toList_ofList]
  unfold decimalSign
  split
  case isTrue hneg =>
    obtain ⟨k, rfl⟩ : ∃ k : Nat, n = -(k + 1 : Nat) := ⟨n.natAbs - 1, by omega⟩
    change ("-" ++ (k + 1).repr).toList = _
    rw [String.toList_append, Nat.toList_repr, Int.natAbs_neg]
    rfl
  case isFalse hpos =>
    obtain ⟨k, rfl⟩ : ∃ k : Nat, n = k := ⟨n.natAbs, by omega⟩
    exact Nat.toList_repr

theorem parseI64_toString (n : Int) : parseI64 (toString n) = i64TryFrom n := by
  rw [toString_eq, parseI64_digits _ (isDigits_toDigits _), digitsValue_toDigits, apply_decimalSign]

theorem parseF64_toString {n : Int} (h : n.natAbs < 2 ^ 127) :
    parseF64 (toString n) = some (Float.Model.ofInt n) := by
  rw [toString_eq, ← Numeral.text_ofDigits _ (isDigits_toDigits _), Numeral.parseF64_text,
    Numeral.value_ofDigits, digitsValue_toDigits]
  unfold decimalSign
  split
  · change some (Float.Model.ofInt n.natAbs).neg = _
    rw [neg_ofInt (by omega) (by omega)]
    congr 2
    omega
  · change some (Float.Model.ofInt n.natAbs) = _
    congr 2
    omega

end WpConnectorUtils.Ndjson
