import FrancaLint.Source.Decimal
import FrancaLint.Source.Grammar
import FrancaLint.Source.Scan

/-! # Reading documents

A text is scanned against the grammar; then the versions of its elements are turned into numbers and
the anonymous type collections are counted. Main definition: `Document.ofSource`. -/

namespace FrancaLint

namespace Source

/-- Why a text is not a document. -/
inductive Fault where
  /-- The text is not in the grammar: here stands what cannot follow. -/
  | syntaxError (at_ : Position)
  /-- A version has a part that is not a decimal number. -/
  | badVersion (span : Span)
  /-- The file has more than one anonymous type collection; this is the second. -/
  | secondAnonymous (span : Span)
  deriving DecidableEq, Repr

/-- The text that reports a fault. -/
def Fault.message : Fault → String
  | .syntaxError pos => "syntax error at " ++ toString pos.line ++ ":" ++ toString pos.column
  | .badVersion _ => "version numbers must be decimal integers"
  | .secondAnonymous _ => "at most one anonymous typeCollection per file"

/-- The numbers of a version. -/
def VersionText.numbers (version : VersionText) : Except Fault (Int × Int) :=
  match decimal? version.major.lexeme, decimal? version.minor.lexeme with
  | some major, some minor => .ok (major, minor)
  | _, _ => .error (.badVersion version.span)

/-- The numbers of a version that may be missing. -/
def versionNumbers : Option VersionText → Except Fault (Option (Int × Int))
  | none => .ok none
  | some version => version.numbers.map some

/-- The element of a definition, with its version as numbers. -/
def Definition.element : Definition → Except Fault Element
  | .collection c version => do
      let numbers ← versionNumbers version
      return .collection { c with version := numbers }
  | .interface i version => do
      let numbers ← versionNumbers version
      return .interface { i with version := numbers }

/-- The type collections among some elements. -/
def collectionsOf (elements : List Element) : List TypeCollection :=
  elements.filterMap fun
    | .collection c => some c
    | .interface _ => none

/-- The interfaces among some elements. -/
def interfacesOf (elements : List Element) : List Interface :=
  elements.filterMap fun
    | .collection _ => none
    | .interface i => some i

/-- The document of a draft. The first bad version counts before a second anonymous collection. -/
def Draft.document (draft : Draft) (path : String) (digest : Option String) :
    Except Fault Document := do
  let elements ← draft.definitions.mapM Definition.element
  let collections := collectionsOf elements
  match collections.filter (·.name.isEmpty) with
  | _ :: second :: _ => throw (.secondAnonymous second.span)
  | _ =>
      return {
        package := draft.package, sourcePath := path, imports := draft.imports,
        typeCollections := collections, interfaces := interfacesOf elements,
        digest := digest, span := draft.span }

/-- The tokens of a text, and how its reading ends. -/
def scanFile (path text : String) : List Token × Outcome Draft :=
  scan (draft path) {} {} text.toList

end Source

/-- Read the document a text stands for. -/
def Document.ofSource (text path : String) (digest : Option String := none) :
    Except Source.Fault Document :=
  match (Source.scanFile path text).2 with
  | .accepted draft => draft.document path digest
  | .unexpected _ pos => .error (.syntaxError pos)
  | .unfinished pos => .error (.syntaxError pos)

end FrancaLint
