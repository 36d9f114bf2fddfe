import FrancaLint.CommandLine.Arguments
import FrancaLint.CommandLine.Report

/-! # Usage

The texts that explain the command line, on lines of at most eighty characters. Main definitions:
`usage`, `helpText`, and `usageFault`, the answer to a command line that is refused. -/

namespace FrancaLint.CommandLine

/-- The name of the program. -/
def program : String :=
  "fidlcheck"

/-- The forms of a command line. -/
def usage : List String := [
  "usage: fidlcheck [-h] [--config CONFIG] [--project-root PROJECT_ROOT]",
  "                 [--whole-project] [--no-collision-check]",
  "                 [--message-prefix MESSAGE_PREFIX] [--json] [-v]",
  "                 source [source ...]"]

/-- The meaning of the words of a command line. -/
def explanations : List String := [
  "",
  "Validate Franca IDL files before code generation",
  "",
  "positional arguments:",
  "  source                Path(s) to .fidl file(s) to validate",
  "",
  "options:",
  "  -h, --help            show this help message and exit",
  "  --config CONFIG       Path to config JSON (default: ./fidlcheck.json if",
  "                        present)",
  "  --project-root PROJECT_ROOT",
  "                        Project root directory; every .fidl file below it is",
  "                        indexed in whole-project mode",
  "  --whole-project       Check collisions against every project file, not only",
  "                        imported ones (needs --project-root)",
  "  --no-collision-check  Disable package/name collision checks",
  "  --message-prefix MESSAGE_PREFIX",
  "                        Prefix prepended to every diagnostic message",
  "  --json                Emit diagnostics as JSON (phase/message/severity/file/",
  "                        line/column/element/notes)",
  "  -v, --verbose         Log closure/index activity to stderr"]

/-- The help text. -/
def helpText : String :=
  lines (usage ++ explanations)

/-- The answer to a command line that is refused. -/
def usageFault (fault : ArgumentFault) : String :=
  lines (usage ++ [program ++ ": error: " ++ fault.message])

end FrancaLint.CommandLine
