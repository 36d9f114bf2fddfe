/-! # Options of the command line

Main definitions: `Flag`, the options, and `Flag.spelled`, every spelling with its option. -/

namespace FrancaLint

/-- An **option** of the command line. -/
inductive Flag where
  /-- Show the help text. -/
  | help
  /-- The settings file. -/
  | config
  /-- The directory of the project. -/
  | projectRoot
  /-- Index the whole project. -/
  | wholeProject
  /-- Look for no collisions. -/
  | noCollisionCheck
  /-- The text in front of every message. -/
  | messageLead
  /-- Report in JSON. -/
  | json
  /-- Show the log. -/
  | verbose
  deriving DecidableEq, Repr, Inhabited

namespace Flag

/-- The options in the order of the help text. -/
def all : List Flag :=
  [help, config, projectRoot, wholeProject, noCollisionCheck, messageLead, json, verbose]

/-- Every option is listed. -/
theorem mem_all (flag : Flag) : flag ∈ all := by
  cases flag <;> decide

/-- The spellings of an option. -/
def spellings : Flag → List String
  | help => ["-h", "--help"]
  | config => ["--config"]
  | projectRoot => ["--project-root"]
  | wholeProject => ["--whole-project"]
  | noCollisionCheck => ["--no-collision-check"]
  | messageLead => ["--message-prefix"]
  | json => ["--json"]
  | verbose => ["-v", "--verbose"]

/-- The option takes a value. No option of one letter does. -/
def takesValue : Flag → Bool
  | config => true
  | projectRoot => true
  | messageLead => true
  | _ => false

/-- The name of an option in messages. -/
def title (flag : Flag) : String :=
  "/".intercalate flag.spellings

/-- Every spelling with its option. -/
def spelled : List (String × Flag) :=
  all.flatMap fun flag => flag.spellings.map fun spelling => (spelling, flag)

/-- The option of a spelling. -/
def ofSpelling? (spelling : String) : Option Flag :=
  spelled.lookup spelling

/-- No spelling belongs to two options. -/
theorem ofSpelling?_spellings : ∀ flag ∈ all, ∀ spelling ∈ flag.spellings,
    ofSpelling? spelling = some flag := by
  decide

/-- An option is found under each of its spellings. -/
theorem ofSpelling?_of_mem {flag : Flag} {spelling : String} (h : spelling ∈ flag.spellings) :
    ofSpelling? spelling = some flag :=
  ofSpelling?_spellings flag flag.mem_all spelling h

end Flag

end FrancaLint
