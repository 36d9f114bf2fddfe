/-! # Decimal numbers as they are written

A decimal number has digits, possibly a sign in front, and possibly single underscores between
digits. It has at most 4300 digits. -/

namespace FrancaLint.Source

/-- The most digits a number may have. -/
def maxDigits : Nat :=
  4300

/-- The digits of a number without its underscores; each underscore stands between two digits. -/
def groupedDigits? : List Char → Option (List Char)
  | c :: '_' :: rest =>
      if c.isDigit then
        match groupedDigits? rest with
        | some digits => some (c :: digits)
        | none => none
      else none
  | [c] => if c.isDigit then some [c] else none
  | c :: rest =>
      if c.isDigit then
        match groupedDigits? rest with
        | some digits => some (c :: digits)
        | none => none
      else none
  | [] => none

/-- The number that digits stand for. -/
def digitsValue (digits : List Char) : Nat :=
  digits.foldl (fun value c => 10 * value + (c.toNat - '0'.toNat)) 0

/-- The number that an unsigned text stands for. -/
def natural? (text : List Char) : Option Nat :=
  match groupedDigits? text with
  | some digits => if digits.length ≤ maxDigits then some (digitsValue digits) else none
  | none => none

/-- The number that a text stands for. -/
def decimal? : List Char → Option Int
  | '-' :: rest => (natural? rest).map fun n => -(n : Int)
  | text => (natural? text).map fun n => (n : Int)

end FrancaLint.Source
