import FrancaLint.Json.Value

/-! # Reading JSON

A reader for JSON texts, which may also hold `NaN` and the infinities. A text that is not JSON is
answered with what was expected and the line on which it is missing. Integers have a bounded number
of digits, and arrays and objects a depth that the caller bounds. Main definition: `Json.read`. -/

namespace FrancaLint.Json

/-- A value that holds values. -/
inductive Container where
  /-- An array. -/
  | array
  /-- An object. -/
  | object
  deriving DecidableEq, Repr

/-- The name of a container in messages. -/
def Container.label : Container → String
  | array => "array"
  | object => "object"

/-- What is wrong with a text. -/
inductive Defect where
  /-- The text starts with a byte order mark. -/
  | byteOrderMark
  /-- A value is missing. -/
  | expectingValue
  /-- A key is missing. -/
  | expectingKey
  /-- The colon behind a key is missing. -/
  | expectingColon
  /-- The comma behind a value is missing. -/
  | expectingComma
  /-- Something follows the value. -/
  | extraData
  /-- A string holds a control character. -/
  | controlCharacter
  /-- A string has no end. -/
  | unterminatedString
  /-- A backslash stands in front of a character that it cannot stand in front of. -/
  | badEscape
  /-- A code unit does not have four hexadecimal digits. -/
  | badUnicodeEscape
  /-- An integer has too many digits. -/
  | tooManyDigits (count : Nat)
  /-- A container lies in too many others. -/
  | tooDeep (container : Container)
  deriving DecidableEq, Repr

/-- The most digits an integer may have. -/
def maxDigits : Nat :=
  4300

/-- The most containers that may lie in one another when the reader is called by the program. How
much of the stack is left to a reader depends on its caller. -/
def maxDepth : Nat :=
  990

/-- The text that reports a defect. -/
def Defect.message : Defect → String
  | byteOrderMark => "Unexpected UTF-8 BOM (decode using utf-8-sig)"
  | expectingValue => "Expecting value"
  | expectingKey => "Expecting property name enclosed in double quotes"
  | expectingColon => "Expecting ':' delimiter"
  | expectingComma => "Expecting ',' delimiter"
  | extraData => "Extra data"
  | controlCharacter => "Invalid control character at"
  | unterminatedString => "Unterminated string starting at"
  | badEscape => "Invalid \\escape"
  | badUnicodeEscape => "Invalid \\uXXXX escape"
  | tooManyDigits count =>
      "Exceeds the limit (" ++ toString maxDigits ++
        " digits) for integer string conversion: value has " ++ toString count ++
        " digits; use sys.set_int_max_str_digits() to increase the limit"
  | tooDeep container =>
      "maximum recursion depth exceeded while decoding a JSON " ++ container.label ++
        " from a unicode string"

/-- A defect and the text from the place where it stands. -/
structure Fault where
  /-- What is wrong. -/
  defect : Defect
  /-- The text from there on. -/
  rest : List Char

/-- Drop the blanks at the start of a text. -/
def dropBlanks (text : List Char) : List Char :=
  text.dropWhile fun c => c == ' ' || c == '\t' || c == '\n' || c == '\r'

/-! ## Strings -/

/-- The value of a hexadecimal digit. -/
def hexDigit? (c : Char) : Option Nat :=
  if c.isDigit then some (c.toNat - '0'.toNat)
  else if 'a' ≤ c ∧ c ≤ 'f' then some (c.toNat - 'a'.toNat + 10)
  else if 'A' ≤ c ∧ c ≤ 'F' then some (c.toNat - 'A'.toNat + 10)
  else none

/-- The value of four hexadecimal digits. -/
def codeUnit? (a b c d : Char) : Option Nat :=
  match hexDigit? a, hexDigit? b, hexDigit? c, hexDigit? d with
  | some p, some q, some r, some s => some (((p * 16 + q) * 16 + r) * 16 + s)
  | _, _, _, _ => none

/-- The first code unit of a pair. -/
def isHighSurrogate (unit : Nat) : Bool :=
  0xD800 ≤ unit && unit < 0xDC00

/-- The second code unit of a pair. -/
def isLowSurrogate (unit : Nat) : Bool :=
  0xDC00 ≤ unit && unit < 0xE000

/-- The character of a code unit. A unit without its partner is no character: it becomes the
replacement character here, where a text of code points would keep it. -/
def unitChar (unit : Nat) : Char :=
  if isHighSurrogate unit || isLowSurrogate unit then Char.ofNat 0xFFFD else Char.ofNat unit

/-- The character of a pair of code units. -/
def pairChar (high low : Nat) : Char :=
  Char.ofNat (0x10000 + (high - 0xD800) * 0x400 + (low - 0xDC00))

/-- The character that a backslash and this character stand for. -/
def escaped? : Char → Option Char
  | '"' => some '"'
  | '\\' => some '\\'
  | '/' => some '/'
  | 'b' => some '\x08'
  | 'f' => some '\x0c'
  | 'n' => some '\n'
  | 'r' => some '\r'
  | 't' => some '\t'
  | _ => none

/-- Put a character in front of a string that has been read. -/
def withChar (c : Char) (read : Except Fault (List Char × List Char)) :
    Except Fault (List Char × List Char) :=
  read.map fun (chars, rest) => (c :: chars, rest)

/-- The characters of a string behind its opening quote and the text behind the closing one.
`opening` is the text from the opening quote. -/
def readChars (opening : List Char) : List Char → Except Fault (List Char × List Char)
  | [] => .error ⟨.unterminatedString, opening⟩
  | '"' :: rest => .ok ([], rest)
  | '\\' :: 'u' :: a :: b :: c :: d :: '\\' :: 'u' :: e :: f :: g :: h :: i :: rest =>
      match codeUnit? a b c d with
      | none => .error ⟨.badUnicodeEscape, opening⟩
      | some high =>
          if isHighSurrogate high then
            match codeUnit? e f g h with
            | none => .error ⟨.badUnicodeEscape, opening⟩
            | some low =>
                if isLowSurrogate low then
                  withChar (pairChar high low) (readChars opening (i :: rest))
                else
                  withChar (unitChar high)
                    (readChars opening ('\\' :: 'u' :: e :: f :: g :: h :: i :: rest))
          else
            withChar (unitChar high)
              (readChars opening ('\\' :: 'u' :: e :: f :: g :: h :: i :: rest))
  | '\\' :: 'u' :: a :: b :: c :: d :: e :: rest =>
      match codeUnit? a b c d with
      | none => .error ⟨.badUnicodeEscape, opening⟩
      | some unit => withChar (unitChar unit) (readChars opening (e :: rest))
  | '\\' :: 'u' :: _ => .error ⟨.badUnicodeEscape, opening⟩
  | '\\' :: c :: rest =>
      match escaped? c with
      | none => .error ⟨.badEscape, opening⟩
      | some c => withChar c (readChars opening rest)
  | ['\\'] => .error ⟨.unterminatedString, opening⟩
  | c :: rest =>
      if c.toNat ≤ 0x1F then .error ⟨.controlCharacter, opening⟩
      else withChar c (readChars opening rest)

/-- A string behind its opening quote. -/
def readString (opening rest : List Char) : Except Fault (String × List Char) :=
  (readChars opening rest).map fun (chars, after) => (String.ofList chars, after)

/-! ## Numbers -/

/-- The number that digits stand for. -/
def digitsValue (digits : List Char) : Nat :=
  digits.foldl (fun value c => 10 * value + (c.toNat - '0'.toNat)) 0

/-- The digits in front of the point: a zero alone, or digits without a leading zero. -/
def wholeDigits? : List Char → Option (List Char × List Char)
  | '0' :: rest => some (['0'], rest)
  | c :: rest =>
      if c.isDigit then some (c :: rest.takeWhile Char.isDigit, rest.dropWhile Char.isDigit)
      else none
  | [] => none

/-- The digits behind the point, if a point with digits follows. -/
def fractionDigits? : List Char → Option (List Char × List Char)
  | '.' :: c :: rest =>
      if c.isDigit then some (c :: rest.takeWhile Char.isDigit, rest.dropWhile Char.isDigit)
      else none
  | _ => none

/-- The exponent, if one with digits follows. -/
def exponent? : List Char → Option (Int × List Char)
  | e :: rest =>
      if e == 'e' || e == 'E' then
        let (negative, body) := match rest with
          | '-' :: body => (true, body)
          | '+' :: body => (false, body)
          | body => (false, body)
        let digits := body.takeWhile Char.isDigit
        if digits.isEmpty then none
        else
          let size : Int := digitsValue digits
          some (if negative then -size else size, body.dropWhile Char.isDigit)
      else none
  | [] => none

/-- A number with its sign. -/
def signed (negative : Bool) (size : Nat) : Int :=
  if negative then -(size : Int) else size

/-- The number at the start of a text. -/
def readNumber (text : List Char) : Except Fault (Json × List Char) :=
  let (negative, body) := match text with
    | '-' :: body => (true, body)
    | body => (false, body)
  match wholeDigits? body with
  | none => .error ⟨.expectingValue, text⟩
  | some (whole, rest) =>
      match fractionDigits? rest with
      | some (fraction, rest) =>
          let mantissa := signed negative (digitsValue (whole ++ fraction))
          match exponent? rest with
          | some (power, rest) => .ok (.decimal mantissa (power - fraction.length), rest)
          | none => .ok (.decimal mantissa (-(fraction.length : Int)), rest)
      | none =>
          match exponent? rest with
          | some (power, rest) => .ok (.decimal (signed negative (digitsValue whole)) power, rest)
          | none =>
              if maxDigits < whole.length then .error ⟨.tooManyDigits whole.length, text⟩
              else .ok (.integer (signed negative (digitsValue whole)), rest)

/-! ## Values -/

mutual

/-- The value at the start of a text. The first number bounds the steps, the second one is how many
more containers may lie in one another. -/
def readValue : Nat → Nat → List Char → Except Fault (Json × List Char)
  | 0, _, text => .error ⟨.expectingValue, text⟩
  | steps + 1, depth, text =>
      match text with
      | '"' :: rest => (readString text rest).map fun (s, after) => (.string s, after)
      | '\x7b' :: rest =>
          match depth with
          | 0 => .error ⟨.tooDeep .object, text⟩
          | depth + 1 =>
              match dropBlanks rest with
              | '\x7d' :: after => .ok (.object [], after)
              | body =>
                  (readFields steps depth body).map fun (fields, after) => (.object fields, after)
      | '[' :: rest =>
          match depth with
          | 0 => .error ⟨.tooDeep .array, text⟩
          | depth + 1 =>
              match dropBlanks rest with
              | ']' :: after => .ok (.array [], after)
              | body => (readItems steps depth body).map fun (items, after) => (.array items, after)
      | 'n' :: 'u' :: 'l' :: 'l' :: rest => .ok (.null, rest)
      | 't' :: 'r' :: 'u' :: 'e' :: rest => .ok (.bool true, rest)
      | 'f' :: 'a' :: 'l' :: 's' :: 'e' :: rest => .ok (.bool false, rest)
      | 'N' :: 'a' :: 'N' :: rest => .ok (.nonFinite "NaN", rest)
      | 'I' :: 'n' :: 'f' :: 'i' :: 'n' :: 'i' :: 't' :: 'y' :: rest =>
          .ok (.nonFinite "Infinity", rest)
      | '-' :: 'I' :: 'n' :: 'f' :: 'i' :: 'n' :: 'i' :: 't' :: 'y' :: rest =>
          .ok (.nonFinite "-Infinity", rest)
      | _ => readNumber text

/-- The items of an array up to the closing bracket. -/
def readItems : Nat → Nat → List Char → Except Fault (List Json × List Char)
  | 0, _, text => .error ⟨.expectingValue, text⟩
  | steps + 1, depth, text => do
      let (item, rest) ← readValue steps depth text
      match dropBlanks rest with
      | ']' :: after => return ([item], after)
      | ',' :: after =>
          let (items, after) ← readItems steps depth (dropBlanks after)
          return (item :: items, after)
      | other => throw ⟨.expectingComma, other⟩

/-- The fields of an object up to the closing brace. -/
def readFields : Nat → Nat → List Char → Except Fault (List (String × Json) × List Char)
  | 0, _, text => .error ⟨.expectingKey, text⟩
  | steps + 1, depth, text => do
      let (key, rest) ← match text with
        | '"' :: rest => readString text rest
        | _ => throw ⟨.expectingKey, text⟩
      let (value, rest) ← match dropBlanks rest with
        | ':' :: rest => readValue steps depth (dropBlanks rest)
        | other => throw ⟨.expectingColon, other⟩
      match dropBlanks rest with
      | '\x7d' :: after => return ([(key, value)], after)
      | ',' :: after =>
          let (fields, after) ← readFields steps depth (dropBlanks after)
          return ((key, value) :: fields, after)
      | other => throw ⟨.expectingComma, other⟩

end

/-- The value that a whole text stands for, with at most so many containers in one another. -/
def readAll (depth : Nat) (text : List Char) : Except Fault Json := do
  if text.head? = some (Char.ofNat 0xFEFF) then throw ⟨.byteOrderMark, text⟩
  let (value, rest) ← readValue (2 * text.length + 1) depth (dropBlanks text)
  match dropBlanks rest with
  | [] => return value
  | other => throw ⟨.extraData, other⟩

/-- The line on which the rest of a text starts. -/
def lineOf (text rest : List Char) : Nat :=
  1 + (text.take (text.length - rest.length)).count '\n'

/-- Read a JSON text with at most so many containers in one another; a defect comes with its
line. -/
def read (text : String) (depth : Nat := maxDepth) : Except (Defect × Nat) Json :=
  match readAll depth text.toList with
  | .ok value => .ok value
  | .error fault => .error (fault.defect, lineOf text.toList fault.rest)

end FrancaLint.Json
