import FrancaLint.Text.Hexadecimal

/-! # Text encodings

Bytes and characters in UTF-8, ASCII and Latin-1. A sequence of bytes that is no text is answered
with the place and the reason of its first defect.

Main definitions: `Encoding.decode`, `utf8Bytes`. -/

namespace FrancaLint

/-- The encodings of text files. -/
inductive Encoding where
  /-- One to four bytes a character. -/
  | utf8
  /-- One byte below 128 a character. -/
  | ascii
  /-- One byte a character. -/
  | latin1
  deriving DecidableEq, Repr, Inhabited

/-- The name of an encoding. -/
def Encoding.label : Encoding → String
  | utf8 => "utf-8"
  | ascii => "ascii"
  | latin1 => "latin-1"

/-- Why bytes are no text. -/
inductive DecodeReason where
  /-- No character starts with this byte. -/
  | badStart
  /-- A byte does not continue the character before it. -/
  | badContinuation
  /-- The last character is not complete. -/
  | truncated
  /-- The byte does not belong to the encoding. -/
  | outOfRange
  deriving DecidableEq, Repr, Inhabited

/-- The text that reports a reason. -/
def DecodeReason.message : DecodeReason → String
  | badStart => "invalid start byte"
  | badContinuation => "invalid continuation byte"
  | truncated => "unexpected end of data"
  | outOfRange => "ordinal not in range(128)"

/-- The first defect of some bytes. -/
structure DecodeFault where
  /-- The encoding that was expected. -/
  encoding : Encoding
  /-- The first byte that is no text. -/
  byte : UInt8
  /-- Its position. -/
  start : Nat
  /-- The number of bytes that are no text. -/
  length : Nat
  /-- Why they are none. -/
  reason : DecodeReason
  deriving DecidableEq, Repr, Inhabited

/-- The text that reports a fault in full. -/
def DecodeFault.message (fault : DecodeFault) : String :=
  let place :=
    if fault.length = 1 then
      "byte 0x" ++ String.ofList (hexDigits 2 fault.byte.toNat) ++ " in position " ++
        toString fault.start
    else
      "bytes in position " ++ toString fault.start ++ "-" ++
        toString (fault.start + fault.length - 1)
  "'" ++ fault.encoding.label ++ "' codec can't decode " ++ place ++ ": " ++
    fault.reason.message

/-! ## UTF-8 -/

/-- What the bytes of a text start with. -/
inductive Utf8Step where
  /-- A character, which takes some bytes. -/
  | char (c : Char) (length : Nat)
  /-- Some bytes that are no character. -/
  | fault (length : Nat) (reason : DecodeReason)

/-- The byte continues a character. -/
def isContinuation (byte : UInt8) : Bool :=
  0x80 ≤ byte && byte < 0xC0

/-- The second byte of a character of three bytes is in range: no character has a shorter form, and
none is a surrogate. -/
def isSecondOfThree (first second : UInt8) : Bool :=
  isContinuation second &&
    !(first == 0xE0 && second < 0xA0) && !(first == 0xED && 0xA0 ≤ second)

/-- The second byte of a character of four bytes is in range: no character has a shorter form, and
none is above the last one. -/
def isSecondOfFour (first second : UInt8) : Bool :=
  isContinuation second &&
    !(first == 0xF0 && second < 0x90) && !(first == 0xF4 && 0x90 ≤ second)

/-- The character of the bits in the bytes of its encoding. -/
def charOfBits (first : Nat) (rest : List UInt8) : Char :=
  Char.ofNat (rest.foldl (fun code byte => code * 64 + (byte.toNat - 0x80)) first)

/-- The first character of some bytes, or what is wrong with them. -/
def utf8Step (first : UInt8) (rest : List UInt8) : Utf8Step :=
  if first < 0x80 then .char (Char.ofNat first.toNat) 1
  else if first < 0xC2 then .fault 1 .badStart
  else if first < 0xE0 then
    match rest with
    | [] => .fault 1 .truncated
    | b :: _ =>
        if isContinuation b then .char (charOfBits (first.toNat - 0xC0) [b]) 2
        else .fault 1 .badContinuation
  else if first < 0xF0 then
    match rest with
    | [] => .fault 1 .truncated
    | b :: more =>
        if !isSecondOfThree first b then .fault 1 .badContinuation
        else
          match more with
          | [] => .fault 2 .truncated
          | c :: _ =>
              if isContinuation c then .char (charOfBits (first.toNat - 0xE0) [b, c]) 3
              else .fault 2 .badContinuation
  else if first < 0xF5 then
    match rest with
    | [] => .fault 1 .truncated
    | b :: more =>
        if !isSecondOfFour first b then .fault 1 .badContinuation
        else
          match more with
          | [] => .fault 2 .truncated
          | c :: last =>
              if !isContinuation c then .fault 2 .badContinuation
              else
                match last with
                | [] => .fault 3 .truncated
                | d :: _ =>
                    if isContinuation d then
                      .char (charOfBits (first.toNat - 0xF0) [b, c, d]) 4
                    else .fault 3 .badContinuation
  else .fault 1 .badStart

/-- The characters of some bytes in UTF-8. The position is that of the first byte, and the number
counts the bytes of the character before that are still to be skipped. -/
def decodeUtf8 (position : Nat) : Nat → List UInt8 → Except DecodeFault (List Char)
  | _, [] => .ok []
  | skipped + 1, _ :: rest => decodeUtf8 (position + 1) skipped rest
  | 0, byte :: rest =>
      match utf8Step byte rest with
      | .char c length => (decodeUtf8 (position + 1) (length - 1) rest).map (c :: ·)
      | .fault length reason => .error ⟨.utf8, byte, position, length, reason⟩

/-- The bytes of a character in UTF-8. -/
def utf8CharBytes (c : Char) : List UInt8 :=
  let n := c.toNat
  if n < 0x80 then [UInt8.ofNat n]
  else if n < 0x800 then [UInt8.ofNat (0xC0 + n / 64), UInt8.ofNat (0x80 + n % 64)]
  else if n < 0x10000 then
    [UInt8.ofNat (0xE0 + n / 4096), UInt8.ofNat (0x80 + n / 64 % 64),
      UInt8.ofNat (0x80 + n % 64)]
  else
    [UInt8.ofNat (0xF0 + n / 262144), UInt8.ofNat (0x80 + n / 4096 % 64),
      UInt8.ofNat (0x80 + n / 64 % 64), UInt8.ofNat (0x80 + n % 64)]

/-- The bytes of a text in UTF-8. -/
def utf8Bytes (text : String) : List UInt8 :=
  text.toList.flatMap utf8CharBytes

/-! ## All encodings -/

/-- The characters of some bytes in ASCII. -/
def decodeAscii (position : Nat) : List UInt8 → Except DecodeFault (List Char)
  | [] => .ok []
  | byte :: rest =>
      if byte < 0x80 then
        (decodeAscii (position + 1) rest).map (Char.ofNat byte.toNat :: ·)
      else .error ⟨.ascii, byte, position, 1, .outOfRange⟩

/-- The text of some bytes. -/
def Encoding.decode (encoding : Encoding) (bytes : List UInt8) : Except DecodeFault String :=
  match encoding with
  | utf8 => (decodeUtf8 0 0 bytes).map String.ofList
  | ascii => (decodeAscii 0 bytes).map String.ofList
  | latin1 => .ok (String.ofList (bytes.map fun byte => Char.ofNat byte.toNat))

/-- End every line by a line feed alone: a carriage return counts as one, together with the line
feed behind it. -/
def unifyLineEnds : List Char → List Char
  | '\r' :: '\n' :: rest => '\n' :: unifyLineEnds rest
  | '\r' :: rest => '\n' :: unifyLineEnds rest
  | c :: rest => c :: unifyLineEnds rest
  | [] => []

end FrancaLint
