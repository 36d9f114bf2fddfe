import FrancaLint.Diagnostic
import FrancaLint.Json.Writer

/-! # Reports

The findings of a run as lines of text or as JSON. Main definitions: `textReport`, `jsonReport`. -/

namespace FrancaLint

namespace Diagnostic

/-- The file that a finding is reported for: that of its span, or else its document. -/
def reportedFile (diagnostic : Diagnostic) : String :=
  match diagnostic.span.file with
  | none => diagnostic.ref.document
  | some file => if file.isEmpty then diagnostic.ref.document else file

/-- The lines of a finding: its place and message, and a line for each note. -/
def textLines (diagnostic : Diagnostic) : List String :=
  (diagnostic.reportedFile ++ ":" ++ Span.coordinate diagnostic.span.line ++ ":" ++
    Span.coordinate diagnostic.span.column ++ ": " ++ diagnostic.severity.label ++ ": " ++
    diagnostic.message) ::
  diagnostic.notes.map ("  note: " ++ ·)

/-- The JSON object of a finding. -/
def toJson (diagnostic : Diagnostic) : Json :=
  .object [
    ("phase", .string "validate"),
    ("message", .string diagnostic.message),
    ("severity", .string diagnostic.severity.label),
    ("file", .string diagnostic.reportedFile),
    ("line", (diagnostic.span.line.map .integer).getD .null),
    ("column", (diagnostic.span.column.map .integer).getD .null),
    ("element", .string diagnostic.ref.describe),
    ("notes", .array (diagnostic.notes.map .string))]

end Diagnostic

namespace CommandLine

/-- Lines of text, each with its end. -/
def lines (texts : List String) : String :=
  String.join (texts.map (· ++ "\n"))

/-- Findings as lines of text. -/
def textReport (diagnostics : List Diagnostic) : String :=
  lines (diagnostics.flatMap Diagnostic.textLines)

/-- Findings, as JSON objects, and the exit code as one line of JSON. -/
def jsonReport (exitCode : Nat) (diagnostics : List Json) : String :=
  let fields := [("exit_code", .integer exitCode), ("diagnostics", .array diagnostics)]
  lines [(Json.object fields).write]

/-- A fault of the configuration as a line of text. -/
def configurationLine (file : Option String) (message : String) : String :=
  lines [file.getD "<config>" ++ ":?:?: error: " ++ message]

/-- A fault of the configuration as a JSON object. -/
def configurationJson (file : Option String) (message : String) : Json :=
  .object [
    ("phase", .string "config"),
    ("message", .string message),
    ("severity", .string Severity.error.label),
    ("file", (file.map .string).getD .null),
    ("line", .null),
    ("column", .null),
    ("element", .null),
    ("notes", .array [])]

end CommandLine

end FrancaLint
