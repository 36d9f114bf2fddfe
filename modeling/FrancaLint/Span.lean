/-! # Spans

A **span** says where in a file something stands. Every part may be missing: documents that were
never written as text carry no position. -/

namespace FrancaLint

/-- File, first and last position of a model element; lines and columns count from one. -/
structure Span where
  /-- The file that holds the element. -/
  file : Option String := none
  /-- Line of the first character. -/
  line : Option Int := none
  /-- Column of the first character. -/
  column : Option Int := none
  /-- Line of the position after the last character. -/
  endLine : Option Int := none
  /-- Column of the position after the last character. -/
  endColumn : Option Int := none
  deriving DecidableEq, Repr, Inhabited

/-- The **extent** a syntax node covers; an empty node covers nothing, whatever its numbers say. -/
structure Extent where
  /-- The node matched no text at all. -/
  empty : Bool := false
  /-- Line of the first character. -/
  line : Option Int := none
  /-- Column of the first character. -/
  column : Option Int := none
  /-- Line of the position after the last character. -/
  endLine : Option Int := none
  /-- Column of the position after the last character. -/
  endColumn : Option Int := none
  deriving DecidableEq, Repr, Inhabited

namespace Span

/-- The span of a whole file: no position is known. -/
def ofFile (file : String) : Span :=
  { file := some file }

/-- The span of an extent in a file; a missing or empty extent leaves only the file. -/
def ofExtent (extent : Option Extent) (file : Option String) : Span :=
  match extent with
  | none => { file := file }
  | some e =>
      if e.empty then { file := file }
      else
        { file := file, line := e.line, column := e.column,
          endLine := e.endLine, endColumn := e.endColumn }

/-- Move a span to another file; without a file nothing changes. -/
def withFile (span : Span) (file : Option String) : Span :=
  match file with
  | none => span
  | some name => { span with file := some name }

/-- A missing file changes nothing. -/
@[simp] theorem withFile_none (span : Span) : span.withFile none = span :=
  rfl

/-- The file of a moved span is the new one. -/
@[simp] theorem file_withFile_some (span : Span) (name : String) :
    (span.withFile (some name)).file = some name :=
  rfl

/-- Give a span without a file the file of the document it belongs to. -/
def anchoredIn (span : Span) (file : String) : Span :=
  match span.file with
  | none => span.withFile (some file)
  | some _ => span

/-- An anchored span always names a file. -/
theorem file_anchoredIn_ne_none (span : Span) (file : String) :
    (span.anchoredIn file).file ≠ none := by
  unfold anchoredIn
  split <;> simp_all

/-- A coordinate as text, `?` when it is unknown. -/
def coordinate : Option Int → String
  | none => "?"
  | some n => toString n

/-- The short form `file:line:column`, with `?` for unknown numbers. -/
def short (span : Span) : String :=
  let file := match span.file with
    | none => "<unknown>"
    | some name => if name.isEmpty then "<unknown>" else name
  file ++ ":" ++ coordinate span.line ++ ":" ++ coordinate span.column

end Span

end FrancaLint
