import FrancaLint.Span

/-! # Diagnostics

A **diagnostic** is one finding: how bad it is, what it says, which element it is about and where
that element stands. A **collector** gathers diagnostics in the order in which they come. -/

namespace FrancaLint

/-- How bad a finding is. -/
inductive Severity where
  /-- The files cannot be used. -/
  | error
  /-- The files can be used, but something is doubtful. -/
  | warning
  /-- A remark. -/
  | info
  deriving DecidableEq, Repr, Inhabited

namespace Severity

/-- The name of a severity. -/
def label : Severity → String
  | error => "error"
  | warning => "warning"
  | info => "info"

/-- A name that is no severity. -/
structure Unknown where
  /-- The name. -/
  label : String

/-- The text that reports a name that is no severity. -/
def Unknown.message (unknown : Unknown) : String :=
  "unknown diagnostic severity '" ++ unknown.label ++ "'"

/-- The severity of a name. -/
def ofLabel (label : String) : Except Unknown Severity :=
  if label = "error" then .ok error
  else if label = "warning" then .ok warning
  else if label = "info" then .ok info
  else .error ⟨label⟩

/-- The name of a severity is read back as that severity. -/
@[simp] theorem ofLabel_label (severity : Severity) : ofLabel severity.label = .ok severity := by
  cases severity <;> simp [ofLabel, label]

end Severity

/-- The element a diagnostic is about. -/
structure ElementRef where
  /-- The source path of the document that holds the element. -/
  document : String
  /-- The dotted path of the element, empty for the document itself. -/
  element : String := ""
  /-- Which feature of the element is at fault. -/
  feature : Option String := none
  /-- The position inside a feature that is a list. -/
  index : Option Int := none
  deriving DecidableEq, Repr, Inhabited

/-- The reference as reports show it: `path.feature[index]`. -/
def ElementRef.describe (ref : ElementRef) : String :=
  let element := if ref.element.isEmpty then "<document>" else ref.element
  let feature := match ref.feature with
    | none => ""
    | some name => if name.isEmpty then "" else "." ++ name
  let index := match ref.index with
    | none => ""
    | some n => "[" ++ toString n ++ "]"
  element ++ feature ++ index

/-- One finding. -/
structure Diagnostic where
  /-- How bad it is. -/
  severity : Severity
  /-- What it says. -/
  message : String
  /-- The element it is about. -/
  ref : ElementRef
  /-- Where the element stands. -/
  span : Span
  /-- A code for the kind of finding. -/
  code : Option String := none
  /-- Further remarks. -/
  notes : List String := []
  deriving DecidableEq, Repr, Inhabited

namespace Diagnostic

/-- The diagnostic is an error. -/
def isError (diagnostic : Diagnostic) : Bool :=
  diagnostic.severity == .error

/-- A finding about an element of a document; a span without a file gets that of the document. -/
def about (severity : Severity) (message : String) (ref : ElementRef) (span : Span := {})
    (code : Option String := none) (notes : List String := []) : Diagnostic :=
  { severity := severity, message := message, ref := ref, code := code, notes := notes,
    span := span.anchoredIn ref.document }

/-- The diagnostic with a text in front of its message and a file in its span. -/
def collectedWith (diagnostic : Diagnostic) (leading : String) : Diagnostic :=
  { diagnostic with
    message := leading ++ diagnostic.message,
    span := diagnostic.span.anchoredIn diagnostic.ref.document }

end Diagnostic

/-- Some of the diagnostics is an error. -/
def hasErrors (diagnostics : List Diagnostic) : Bool :=
  diagnostics.any Diagnostic.isError

/-- A **collector** of diagnostics. -/
structure Collector where
  /-- The text in front of every message. -/
  leading : String := ""
  /-- What has been collected, in order. -/
  diagnostics : List Diagnostic := []
  deriving DecidableEq, Repr, Inhabited

namespace Collector

/-- Collect one diagnostic. -/
def accept (collector : Collector) (diagnostic : Diagnostic) : Collector :=
  { collector with
    diagnostics := collector.diagnostics ++ [diagnostic.collectedWith collector.leading] }

/-- Collect several diagnostics. -/
def extend (collector : Collector) (diagnostics : List Diagnostic) : Collector :=
  { collector with
    diagnostics :=
      collector.diagnostics ++ diagnostics.map (·.collectedWith collector.leading) }

/-- Collecting several diagnostics is collecting them one by one. -/
theorem extend_eq_foldl (collector : Collector) (diagnostics : List Diagnostic) :
    collector.extend diagnostics = diagnostics.foldl accept collector := by
  induction diagnostics generalizing collector with
  | nil => simp [extend]
  | cons first rest ih => rw [List.foldl_cons, ← ih]; simp [extend, accept]

/-- The number of diagnostics collected. -/
def size (collector : Collector) : Nat :=
  collector.diagnostics.length

end Collector

end FrancaLint
