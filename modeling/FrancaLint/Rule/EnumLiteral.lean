import FrancaLint.Diagnostic
import FrancaLint.Model

/-! # Enumerator literals

The value of an enumerator is an integer literal: binary behind `0b`, hexadecimal behind `0x`, octal
behind a zero, decimal otherwise. Main definition: `literalFault?`. -/

namespace FrancaLint.Rule

/-- What is wrong with a literal. -/
inductive LiteralFault where
  /-- There is no text. -/
  | missing
  /-- The only character is no digit. -/
  | notNumber
  /-- Something other than binary digits stands behind `0b`. -/
  | notBinary
  /-- Something other than hexadecimal digits stands behind `0x`. -/
  | notHexadecimal
  /-- Something other than octal digits stands behind a zero. -/
  | notOctal
  /-- Something other than decimal digits stands in the text. -/
  | notDecimal
  deriving DecidableEq, Repr

/-- The text that reports a fault. -/
def LiteralFault.message : LiteralFault → String
  | missing => "Missing value!"
  | notNumber => "Not a valid number!"
  | notBinary => "Not a valid number! Should be binary"
  | notHexadecimal => "Not a valid number! Should be hexadecimal"
  | notOctal => "Not a valid number! Should be octal"
  | notDecimal => "Not a valid number! Should be decimal"

/-- The small form of a character, as far as literals can tell: the capital dotted `I` becomes two
characters, the Kelvin sign becomes a `k`, and no other character outside ASCII becomes one inside.
-/
def smallForm (c : Char) : List Char :=
  if c = 'İ' then ['i', Char.ofNat 0x307]
  else if c = Char.ofNat 0x212A then ['k']
  else [c.toLower]

/-- A text in small letters. -/
def smallLetters (text : List Char) : List Char :=
  text.flatMap smallForm

/-- A binary digit. -/
def isBinaryDigit (c : Char) : Bool :=
  c == '0' || c == '1'

/-- An octal digit. -/
def isOctalDigit (c : Char) : Bool :=
  '0' ≤ c && c ≤ '7'

/-- A hexadecimal digit in small letters. -/
def isHexDigit (c : Char) : Bool :=
  c.isDigit || ('a' ≤ c && c ≤ 'f')

/-- The first rule that a literal in small letters breaks. -/
def literalFault? : List Char → Option LiteralFault
  | [] => some .missing
  | [c] => if c.isDigit then none else some .notNumber
  | '0' :: 'b' :: d :: rest =>
      if (d :: rest).all isBinaryDigit then none else some .notBinary
  | '0' :: 'x' :: d :: rest =>
      if (d :: rest).all isHexDigit then none else some .notHexadecimal
  | '0' :: rest => if rest.all isOctalDigit then none else some .notOctal
  | text => if text.all Char.isDigit then none else some .notDecimal

/-- The severity and the message for a malformed literal. -/
def enumLiteral? (text : String) : Option (Severity × String) :=
  (literalFault? (smallLetters text.toList)).map fun fault => (.warning, fault.message)

/-- The findings for an enumerator of an enumeration. -/
def enumerator (document : Document) (element : Element) (decl : TypeDecl) (e : Enumerator) :
    List Diagnostic :=
  match e.value.bind enumLiteral? with
  | none => []
  | some (severity, message) =>
      let path := [element.name, decl.name, e.name].filter fun name => !name.isEmpty
      [.about severity message
        { document := document.sourcePath, element := ".".intercalate path,
          feature := some "value" }
        e.span]

/-- The findings for all enumerators of a document. -/
def enumLiterals (document : Document) : List Diagnostic :=
  document.declarations.flatMap fun (element, decl) =>
    match decl.body with
    | .enumeration enumerators _ => enumerators.flatMap (enumerator document element decl)
    | _ => []

end FrancaLint.Rule
