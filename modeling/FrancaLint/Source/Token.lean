import FrancaLint.Span
import FrancaLint.Source.Position

/-! # Tokens

A **terminal** is a class of words; a **token** is one word of the text, its terminal and its place.
Main definition: `longest?`, the longest word at the start of a text whose terminal is allowed. -/

namespace FrancaLint.Source

/-- The classes of words: keywords and marks with a fixed spelling, names, numbers, strings. -/
inductive Terminal where
  /-- A keyword or a punctuation mark. -/
  | fixed (spelling : String)
  /-- An identifier. -/
  | name
  /-- A digit sequence with letters in it, possibly signed. -/
  | number
  /-- A quoted text. -/
  | string
  deriving DecidableEq, Repr, Inhabited

/-- A word of the text with its place. -/
structure Token where
  /-- The class of the word. -/
  terminal : Terminal
  /-- Its characters. -/
  lexeme : List Char
  /-- The position of its first character. -/
  start : Position
  /-- The position after its last character. -/
  stop : Position
  deriving DecidableEq, Repr, Inhabited

namespace Token

/-- The characters of the token as a text. -/
def text (token : Token) : String :=
  String.ofList token.lexeme

/-- The span from the first character of one token to the last character of another. -/
def spanTo (first last : Token) (file : String) : Span where
  file := some file
  line := some first.start.line
  column := some first.start.column
  endLine := some last.stop.line
  endColumn := some last.stop.column

/-- The span of the token alone. -/
def span (token : Token) (file : String) : Span :=
  token.spanTo token file

end Token

/-! ## Words -/

/-- The letters and the underscore. -/
def isNameStart (c : Char) : Bool :=
  c.isAlpha || c == '_'

/-- The letters, the digits and the underscore. -/
def isNamePart (c : Char) : Bool :=
  c.isAlphanum || c == '_'

/-- The length of the name at the start of a text, zero if there is none. -/
def nameLength : List Char → Nat
  | c :: rest => if isNameStart c then 1 + (rest.takeWhile isNamePart).length else 0
  | [] => 0

/-- The length of the unsigned number at the start of a text, zero if there is none. -/
def digitsLength : List Char → Nat
  | c :: rest => if c.isDigit then 1 + (rest.takeWhile isNamePart).length else 0
  | [] => 0

/-- The length of the number at the start of a text, zero if there is none. -/
def numberLength : List Char → Nat
  | '-' :: rest => if digitsLength rest = 0 then 0 else 1 + digitsLength rest
  | text => digitsLength text

/-- The length of what remains of a string after its opening quote, the closing quote included. A
backslash takes the next character with it; no line feed stands in a string. -/
def stringTailLength? : List Char → Option Nat
  | [] => none
  | '"' :: _ => some 1
  | '\\' :: c :: rest => if c = '\n' then none else (stringTailLength? rest).map (· + 2)
  | c :: rest => if c = '\n' then none else (stringTailLength? rest).map (· + 1)

/-- The length of the string at the start of a text, zero if there is none. -/
def stringLength : List Char → Nat
  | '"' :: rest => ((stringTailLength? rest).map (· + 1)).getD 0
  | _ => 0

/-- The length of the word of a terminal at the start of a text, zero if there is none. -/
def Terminal.wordLength : Terminal → List Char → Nat
  | fixed spelling, text => if spelling.toList.isPrefixOf text then spelling.toList.length else 0
  | name, text => nameLength text
  | number, text => numberLength text
  | string, text => stringLength text

/-- Terminals whose words win over names of the same length. -/
def Terminal.isFixed : Terminal → Bool
  | fixed _ => true
  | _ => false

/-- Of two candidates the one with the longer word; of equals a fixed spelling. -/
def preferred (best : Terminal × Nat) (other : Terminal × Nat) : Terminal × Nat :=
  if best.2 < other.2 ∨ (best.2 = other.2 ∧ other.1.isFixed = true) then other else best

/-- The terminal and the length of the longest word at the start of a text whose terminal is
allowed. A name that is spelled like an allowed keyword is that keyword. -/
def longest? (allowed : List Terminal) (text : List Char) : Option (Terminal × Nat) :=
  let found := (allowed.map fun t => (t, t.wordLength text)).foldl preferred (.name, 0)
  if found.2 = 0 then none else some found

/-- A word that was found has a character. -/
theorem pos_of_longest? {allowed : List Terminal} {text : List Char} {t : Terminal} {n : Nat}
    (found : longest? allowed text = some (t, n)) : 0 < n := by
  unfold longest? at found
  dsimp only at found
  split at found
  next => simp at found
  next notZero =>
    simp only [Option.some.injEq] at found
    rw [found] at notZero
    exact Nat.pos_of_ne_zero notZero

end FrancaLint.Source
