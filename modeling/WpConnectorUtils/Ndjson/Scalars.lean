import WpConnectorUtils.Arrow.Table

/-!
# Scalar conversions

The text parsers of the standard library that `ndjson.rs` calls, its boolean texts and its
epoch timestamps. An `f64` is the standard library's model of a binary64 number.
-/

namespace WpConnectorUtils.Ndjson
open Arrow (F64)
open Float.Model (UnpackedFloat Format)

/-! ### Numerals -/

/-- The number a non-empty run of decimal digits spells. -/
def parseDigits (text : List Char) : Option Nat :=
  if text ≠ [] ∧ text.all Char.isDigit then
    some (text.foldl (fun n c => 10 * n + (c.toNat - '0'.toNat)) 0)
  else none

/-- `i64::try_from` -/
def i64TryFrom (n : Int) : Option Int64 :=
  if Int64.minValue.toInt ≤ n ∧ n ≤ Int64.maxValue.toInt then some (Int64.ofInt n) else none

/-- `str::parse::<i64>` -/
def parseI64 (text : String) : Option Int64 :=
  match text.toList with
  | '+' :: digits => (parseDigits digits).bind fun n => i64TryFrom n
  | '-' :: digits => (parseDigits digits).bind fun n => i64TryFrom (-n)
  | digits => (parseDigits digits).bind fun n => i64TryFrom n

/-- What follows the digits of a decimal number: nothing, or `e` and an integer. -/
def parseExponent (text : List Char) : Option Int :=
  match text with
  | [] => some 0
  | 'e' :: '+' :: digits => (parseDigits digits).map Int.ofNat
  | 'e' :: '-' :: digits => (parseDigits digits).map fun n => -Int.ofNat n
  | 'e' :: digits => (parseDigits digits).map Int.ofNat
  | _ => none

def parseDecimal (text : List Char) : Option F64 :=
  let whole := text.takeWhile Char.isDigit
  let rest := text.dropWhile Char.isDigit
  let fraction := match rest with
    | '.' :: rest => rest.takeWhile Char.isDigit
    | _ => []
  let rest := match rest with
    | '.' :: rest => rest.dropWhile Char.isDigit
    | rest => rest
  (parseDigits (whole ++ fraction)).bind fun n =>
    (parseExponent rest).map fun e => Float.Model.ofScientific n (e - fraction.length)

def parseUnsignedF64 (text : List Char) : Option F64 :=
  let text := text.map Char.toLower
  if text = "inf".toList ∨ text = "infinity".toList then
    some (Float.Model.pack (.infinity .positive))
  else if text = "nan".toList then some (Float.Model.pack .notANumber)
  else parseDecimal text

/-- `str::parse::<f64>` -/
def parseF64 (text : String) : Option F64 :=
  match text.toList with
  | '+' :: text => parseUnsignedF64 text
  | '-' :: text => (parseUnsignedF64 text).map Float.Model.neg
  | text => parseUnsignedF64 text

/-! ### Booleans -/

/-- `char::is_whitespace` -/
def isWhitespace (c : Char) : Bool :=
  let n := c.toNat
  (0x09 ≤ n ∧ n ≤ 0x0d) ∨ n = 0x20 ∨ n = 0x85 ∨ n = 0xa0 ∨ n = 0x1680 ∨ (0x2000 ≤ n ∧ n ≤ 0x200a) ∨
    n = 0x2028 ∨ n = 0x2029 ∨ n = 0x202f ∨ n = 0x205f ∨ n = 0x3000

/-- `str::trim` -/
def trim (text : List Char) : List Char :=
  ((text.dropWhile isWhitespace).reverse.dropWhile isWhitespace).reverse

def parseBoolText (text : String) : Option Bool :=
  let text := (trim text.toList).map Char.toLower
  if text = "true".toList ∨ text = "1".toList then some true
  else if text = "false".toList ∨ text = "0".toList then some false
  else none

/-! ### Epoch timestamps -/

def epochUnitMultiplier (abs : Int64) : Int64 :=
  if 0 ≤ abs ∧ abs ≤ 9999999999 then 1000000000
  else if 10000000000 ≤ abs ∧ abs ≤ 9999999999999 then 1000000
  else if 10000000000000 ≤ abs ∧ abs ≤ 9999999999999999 then 1000
  else 1

/-- `i64::checked_abs` -/
def checkedAbs (raw : Int64) : Option Int64 :=
  if raw = Int64.minValue then none else some raw.abs

/-- The product is one of `i128`, where it cannot overflow. -/
def epochIntNanos (raw : Int64) : Option Int64 :=
  let abs := (checkedAbs raw).getD Int64.maxValue
  i64TryFrom (raw.toInt * (epochUnitMultiplier abs).toInt)

/-- `f64::round`: to the nearest integer, away from zero half-way between two. -/
def roundF64 (x : F64) : F64 :=
  match x.unpack with
  | .finite sign m e _ =>
    if 0 ≤ e then x
    else
      let half := 2 ^ (-e).toNat
      .pack (.normalize Format.binary64 (sign.apply ((2 * m + half) / (2 * half))) 0 sign)
  | _ => x

def epochFloatNanos (raw : F64) : Option Int64 :=
  if ¬raw.isFinite then none
  else
    let nanos := raw * Float.Model.ofInt64 (epochUnitMultiplier raw.abs.toInt64)
    if ¬nanos.isFinite ∨ nanos < Float.Model.ofInt64 Int64.minValue ∨
        Float.Model.ofInt64 Int64.maxValue < nanos then none
    else some (roundF64 nanos).toInt64

end WpConnectorUtils.Ndjson
