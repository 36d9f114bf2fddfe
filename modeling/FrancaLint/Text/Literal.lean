import FrancaLint.Text.Hexadecimal
import FrancaLint.Text.Printable

/-! # Text literals

A text between quotes on one line of printable characters. Apostrophes are the quotes, or quotation
marks if the text has an apostrophe and no quotation mark.

Main definition: `Literal.ofText`. -/

namespace FrancaLint.Literal

/-- The code point of a character as an escape, in two, four or eight digits. -/
def escapePoint (n : Nat) : List Char :=
  if n < 0x100 then '\\' :: 'x' :: hexDigits 2 n
  else if n < 0x10000 then '\\' :: 'u' :: hexDigits 4 n
  else '\\' :: 'U' :: hexDigits 8 n

/-- A character between quotes of a kind. -/
def escapeChar (mark c : Char) : List Char :=
  if c = mark ∨ c = '\\' then ['\\', c]
  else if c = '\t' then ['\\', 't']
  else if c = '\n' then ['\\', 'n']
  else if c = '\r' then ['\\', 'r']
  else if isPrintable c then [c]
  else escapePoint c.toNat

/-- The quotes around a text. -/
def mark (chars : List Char) : Char :=
  if chars.contains '\'' && !chars.contains '"' then '"' else '\''

/-- A text as a literal. -/
def ofText (text : String) : String :=
  let chars := text.toList
  let m := mark chars
  String.ofList (m :: chars.flatMap (escapeChar m) ++ [m])

end FrancaLint.Literal
