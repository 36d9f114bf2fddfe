/-! # JSON values

Main definitions: `Json`, the values; `Json.field?`, look-up in an object; `Json.isZero`, equality
with the number zero. -/

namespace FrancaLint

/-- A JSON value. Numbers with a fraction or an exponent are kept as they are written. -/
inductive Json where
  /-- The null value. -/
  | null
  /-- A truth value. -/
  | bool (value : Bool)
  /-- A number without fraction and exponent. -/
  | integer (value : Int)
  /-- The number `mantissa · 10 ^ exponent`. -/
  | decimal (mantissa exponent : Int)
  /-- Not a number, or an infinity. -/
  | nonFinite (literal : String)
  /-- A text. -/
  | string (text : String)
  /-- A list of values. -/
  | array (items : List Json)
  /-- Named values in the order of the text. -/
  | object (fields : List (String × Json))
  deriving Inhabited, Repr

namespace Json

/-- The value of a key among the fields of an object; of equal keys the last one counts. -/
def field? (fields : List (String × Json)) (key : String) : Option Json :=
  (fields.reverse.find? (·.1 == key)).map (·.2)

/-- `mantissa · 10 ^ exponent` is zero or so small that the nearest double is zero: it is at most
half of the least positive double, `2 ^ (-1075)`. -/
def roundsToZero (mantissa exponent : Int) : Bool :=
  if mantissa = 0 then true
  else if 0 ≤ exponent then false
  else
    let digits := (Nat.toDigits 10 mantissa.natAbs).length
    let shift := (-exponent).toNat
    digits + 324 ≤ shift || mantissa.natAbs <<< 1075 ≤ Nat.pow 10 shift

/-- The value equals the number zero; so does the truth value `false`. -/
def isZero : Json → Bool
  | integer n => n == 0
  | decimal mantissa exponent => roundsToZero mantissa exponent
  | bool b => !b
  | _ => false

end Json

end FrancaLint
