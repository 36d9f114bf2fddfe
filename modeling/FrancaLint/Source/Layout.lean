/-! # Layout

Text between tokens that means nothing: blanks, line and block comments, annotations. Main
definition: `dropLayout`, which splits the longest run of layout from a text. -/

namespace FrancaLint.Source

/-- The characters that count as blanks. -/
def isBlank (c : Char) : Bool :=
  c == ' ' || c == '\t' || c == '\x0c' || c == '\r' || c == '\n'

/-- Split a text after the first occurrence of a closing mark. -/
def splitAfter? (close : List Char) : List Char → Option (List Char × List Char)
  | [] => none
  | c :: rest =>
      if close.isPrefixOf (c :: rest) then some (close, (c :: rest).drop close.length)
      else (splitAfter? close rest).map fun (inside, after) => (c :: inside, after)

/-- Both parts of the split make up the text. -/
theorem append_of_splitAfter? {close text inside after : List Char}
    (split : splitAfter? close text = some (inside, after)) : inside ++ after = text := by
  induction text generalizing inside after with
  | nil => simp [splitAfter?] at split
  | cons c rest ih =>
    simp only [splitAfter?] at split
    split at split
    next found =>
      obtain ⟨tail, same⟩ := List.isPrefixOf_iff_prefix.mp found
      simp only [Option.some.injEq, Prod.mk.injEq] at split
      obtain ⟨rfl, rfl⟩ := split
      rw [← same]
      simp
    next =>
      obtain ⟨⟨first, second⟩, found, same⟩ := Option.map_eq_some_iff.mp split
      simp only [Prod.mk.injEq] at same
      obtain ⟨rfl, rfl⟩ := same
      simp [ih found]

/-- One blank, comment or annotation at the start of a text, and what follows it. -/
def layoutPiece? : List Char → Option (List Char × List Char)
  | '/' :: '/' :: rest =>
      some ('/' :: '/' :: rest.takeWhile (· != '\n'), rest.dropWhile (· != '\n'))
  | '/' :: '*' :: rest =>
      (splitAfter? ['*', '/'] rest).map fun (inside, after) => ('/' :: '*' :: inside, after)
  | '<' :: '*' :: '*' :: rest =>
      (splitAfter? ['*', '*', '>'] rest).map fun (inside, after) =>
        ('<' :: '*' :: '*' :: inside, after)
  | c :: rest => if isBlank c then some ([c], rest) else none
  | [] => none

/-- A piece of layout and the rest make up the text. -/
theorem append_of_layoutPiece? {text piece rest : List Char}
    (found : layoutPiece? text = some (piece, rest)) : piece ++ rest = text := by
  unfold layoutPiece? at found
  split at found
  next =>
    simp only [Option.some.injEq, Prod.mk.injEq] at found
    obtain ⟨rfl, rfl⟩ := found
    simp
  next =>
    obtain ⟨⟨inside, after⟩, split, same⟩ := Option.map_eq_some_iff.mp found
    simp only [Prod.mk.injEq] at same
    obtain ⟨rfl, rfl⟩ := same
    simp [append_of_splitAfter? split]
  next =>
    obtain ⟨⟨inside, after⟩, split, same⟩ := Option.map_eq_some_iff.mp found
    simp only [Prod.mk.injEq] at same
    obtain ⟨rfl, rfl⟩ := same
    simp [append_of_splitAfter? split]
  next =>
    split at found
    next =>
      simp only [Option.some.injEq, Prod.mk.injEq] at found
      obtain ⟨rfl, rfl⟩ := found
      rfl
    next => simp at found
  next => simp at found

/-- A piece of layout is not empty. -/
theorem ne_nil_of_layoutPiece? {text piece rest : List Char}
    (found : layoutPiece? text = some (piece, rest)) : piece ≠ [] := by
  unfold layoutPiece? at found
  split at found
  next =>
    simp only [Option.some.injEq, Prod.mk.injEq] at found
    simp [← found.1]
  next =>
    obtain ⟨_, _, same⟩ := Option.map_eq_some_iff.mp found
    simp only [Prod.mk.injEq] at same
    simp [← same.1]
  next =>
    obtain ⟨_, _, same⟩ := Option.map_eq_some_iff.mp found
    simp only [Prod.mk.injEq] at same
    simp [← same.1]
  next =>
    split at found
    next =>
      simp only [Option.some.injEq, Prod.mk.injEq] at found
      simp [← found.1]
    next => simp at found
  next => simp at found

/-- What follows a piece of layout is shorter. -/
theorem length_of_layoutPiece? {text piece rest : List Char}
    (found : layoutPiece? text = some (piece, rest)) : rest.length < text.length := by
  have whole := append_of_layoutPiece? found
  have some := ne_nil_of_layoutPiece? found
  have positive := List.length_pos_iff.mpr some
  rw [← whole, List.length_append]
  omega

/-- Split a text into the layout at its start and the rest. -/
def dropLayout (text : List Char) : List Char × List Char :=
  match found : layoutPiece? text with
  | none => ([], text)
  | some (piece, rest) =>
      have : rest.length < text.length := length_of_layoutPiece? found
      let (more, after) := dropLayout rest
      (piece ++ more, after)
termination_by text.length

/-- Layout and rest make up the text. -/
theorem append_dropLayout (text : List Char) :
    (dropLayout text).1 ++ (dropLayout text).2 = text := by
  fun_induction dropLayout text with
  | case1 text none => simp
  | case2 text piece rest found shorter more after split ih =>
    rw [split] at ih
    simp [ih, append_of_layoutPiece? found]

/-- The rest is never longer than the text. -/
theorem length_dropLayout_le (text : List Char) :
    (dropLayout text).2.length ≤ text.length := by
  have whole := congrArg List.length (append_dropLayout text)
  rw [List.length_append] at whole
  omega

end FrancaLint.Source
