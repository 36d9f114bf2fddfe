import FrancaLint.Source.Layout
import FrancaLint.Source.Phrase

/-! # Scanning

A text is read against a phrase: layout is dropped, the longest allowed word is taken, and the
phrase becomes its residual. What is allowed depends on what has been read, so a keyword is only a
keyword where it may follow.

Main definitions:

* `allowedAfter`, the terminals that are looked for in front of a phrase;
* `scan`, the tokens of a text and how the reading ends. -/

namespace FrancaLint.Source

/-- How the reading of a text ends. -/
inductive Outcome (α : Type) where
  /-- The text is a sentence with this value. -/
  | accepted (value : α)
  /-- At this position stands a word that cannot follow, or no word at all. -/
  | unexpected (word : Option Terminal) (at_ : Position)
  /-- The text ends too early; the position is that of the last token. -/
  | unfinished (at_ : Position)

/-- The marks and keywords that may stand behind a dotted name, wherever it is used. -/
def behindDottedName : List Terminal :=
  [.name, .fixed ".*", .fixed "[]", .fixed ",", .fixed "\x7b", .fixed "\x7d", .fixed "from",
   .fixed "to", .fixed "manages", .fixed "import", .fixed "typeCollection", .fixed "interface",
   .fixed "attribute", .fixed "method", .fixed "broadcast", .fixed "public",
   .fixed "enumeration", .fixed "map", .fixed "typedef", .fixed "struct", .fixed "union",
   .fixed "array"]

/-- The terminals that are looked for when these may follow. Behind a segment of a dotted name it is
not yet settled which construct the name belongs to, so everything that may stand behind any dotted
name is looked for. -/
def allowedAfter (starts : List Terminal) : List Terminal :=
  if starts.contains (.fixed ".") then .fixed "." :: behindDottedName else starts

variable {α : Type}

/-- The tokens of a text read against a phrase, and how the reading ends. `last` is the position of
the token before, and `pos` that of the first character. -/
def scan (phrase : Phrase α) (last pos : Position) (text : List Char) :
    List Token × Outcome α :=
  let start := pos.advance (dropLayout text).1
  let body := (dropLayout text).2
  if body.isEmpty then
    match phrase.emptyValue? with
    | some value => ([], .accepted value)
    | none => ([], .unfinished last)
  else
    match _found : longest? (allowedAfter phrase.starts) body with
    | none => ([], .unexpected none start)
    | some (terminal, length) =>
        let lexeme := body.take length
        let token : Token := ⟨terminal, lexeme, start, start.advance lexeme⟩
        let next := phrase.residual token
        if next.isNever then ([], .unexpected (some terminal) start)
        else
          let (tokens, outcome) := scan next start token.stop (body.drop length)
          (token :: tokens, outcome)
termination_by text.length
decreasing_by
  have shorter := length_dropLayout_le text
  have word := pos_of_longest? _found
  have some := List.length_pos_iff.mpr (show body ≠ [] by simp_all)
  have same : body.length = (dropLayout text).2.length := rfl
  simp only [List.length_drop]
  omega

end FrancaLint.Source
