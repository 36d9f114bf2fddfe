/-! # Quoted texts

In a quoted text a backslash stands in front of every quote and every backslash that belongs to the
text; any other backslash stands for itself. -/

namespace FrancaLint.Source

/-- Put a backslash in front of every quote and every backslash. -/
def escape : List Char → List Char
  | [] => []
  | c :: rest => if c = '"' ∨ c = '\\' then '\\' :: c :: escape rest else c :: escape rest

/-- Read a text from left to right, taking a backslash with the quote or backslash behind it as that
character. -/
def unescape : List Char → List Char
  | '\\' :: '"' :: rest => '"' :: unescape rest
  | '\\' :: '\\' :: rest => '\\' :: unescape rest
  | c :: rest => c :: unescape rest
  | [] => []

/-- Reading an escaped text gives the text. -/
@[simp] theorem unescape_escape (text : List Char) : unescape (escape text) = text := by
  induction text with
  | nil => rfl
  | cons c rest ih =>
    by_cases quote : c = '"'
    · simp [escape, unescape, quote, ih]
    · by_cases backslash : c = '\\'
      · simp [escape, unescape, backslash, ih]
      · simp [escape, unescape, quote, backslash, ih]

/-- Replace every occurrence of two neighbouring characters by one, from left to right. -/
def replacePair (first second by_ : Char) : List Char → List Char
  | c :: d :: rest =>
      if c = first ∧ d = second then by_ :: replacePair first second by_ rest
      else c :: replacePair first second by_ (d :: rest)
  | [c] => [c]
  | [] => []

/-- The text of a quoted word: the quotes at both ends are dropped, escaped quotes are replaced, and
then escaped backslashes. -/
def quotedText (word : List Char) : List Char :=
  replacePair '\\' '\\' '\\' (replacePair '\\' '"' '"' word.tail.dropLast)

end FrancaLint.Source
