import FrancaLint.Json.Value
import FrancaLint.Text.Hexadecimal

/-! # Writing JSON

JSON on one line, in ASCII: a comma and a colon are followed by a blank, and every character outside
the printable ASCII range is escaped. Main definition: `Json.write`. -/

namespace FrancaLint.Json

/-- A code unit as an escape. -/
def escapeUnit (unit : Nat) : List Char :=
  '\\' :: 'u' :: hexDigits 4 unit

/-- A character inside a string. -/
def escapeChar (c : Char) : List Char :=
  if c = '"' then ['\\', '"']
  else if c = '\\' then ['\\', '\\']
  else if c = '\n' then ['\\', 'n']
  else if c = '\r' then ['\\', 'r']
  else if c = '\t' then ['\\', 't']
  else if c = '\x08' then ['\\', 'b']
  else if c = '\x0c' then ['\\', 'f']
  else if 0x20 ≤ c.toNat ∧ c.toNat ≤ 0x7E then [c]
  else if c.toNat < 0x10000 then escapeUnit c.toNat
  else
    let offset := c.toNat - 0x10000
    escapeUnit (0xD800 + offset / 0x400) ++ escapeUnit (0xDC00 + offset % 0x400)

/-- A string between quotes. -/
def quote (text : String) : String :=
  String.ofList ('"' :: text.toList.flatMap escapeChar ++ ['"'])

mutual

/-- A value as text. -/
def write : Json → String
  | null => "null"
  | bool true => "true"
  | bool false => "false"
  | integer n => toString n
  | decimal mantissa exponent => toString mantissa ++ "e" ++ toString exponent
  | nonFinite literal => literal
  | string text => quote text
  | array items => "[" ++ writeItems items ++ "]"
  | object fields => "\x7b" ++ writeFields fields ++ "\x7d"

/-- The items of an array, separated by commas. -/
def writeItems : List Json → String
  | [] => ""
  | [item] => write item
  | item :: items => write item ++ ", " ++ writeItems items

/-- The fields of an object, separated by commas. -/
def writeFields : List (String × Json) → String
  | [] => ""
  | [(key, value)] => quote key ++ ": " ++ write value
  | (key, value) :: fields => quote key ++ ": " ++ write value ++ ", " ++ writeFields fields

end

end FrancaLint.Json
