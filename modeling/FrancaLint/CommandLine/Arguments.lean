import FrancaLint.CommandLine.Flag
import FrancaLint.Text.DecimalDigit
import FrancaLint.Text.Literal

/-! # Reading the command line

The words of a command line are options, with or without a value, and sources. An option may be
spelled by any start of a long spelling that no other option has, and options of one letter may
share a word. The word `--` ends the options and is no value. The sources stand together: the first
run of plain words is the list of sources, later plain words are refused.

Main definitions:

* `Word.read`, what a word is on its own;
* `Reading.words`, the effect of the words in order;
* `Arguments.read`, the request that a command line stands for. -/

namespace FrancaLint

/-- Why a command line is refused. -/
inductive ArgumentFault where
  /-- A word is the start of several spellings. -/
  | ambiguous (word : String) (spellings : List String)
  /-- No value follows an option that takes one. -/
  | valueMissing (flag : Flag)
  /-- A value is attached to an option that takes none. -/
  | valueIgnored (flag : Flag) (value : String)
  /-- There are no sources. -/
  | sourcesMissing
  /-- Some words are neither options nor sources. -/
  | unrecognized (words : List String)
  deriving DecidableEq, Repr

/-- The text that reports a fault. -/
def ArgumentFault.message : ArgumentFault → String
  | ambiguous word spellings =>
      "ambiguous option: " ++ word ++ " could match " ++ ", ".intercalate spellings
  | valueMissing flag => "argument " ++ flag.title ++ ": expected one argument"
  | valueIgnored flag value =>
      "argument " ++ flag.title ++ ": ignored explicit argument " ++ Literal.ofText value
  | sourcesMissing => "the following arguments are required: source"
  | unrecognized words => "unrecognized arguments: " ++ " ".intercalate words

/-! ## Words -/

/-- What is attached to an option in its word. -/
inductive Attached where
  /-- Nothing at all. -/
  | nothing
  /-- A value behind the equals sign of a long spelling. -/
  | value (text : String)
  /-- Letters behind an option of one letter, directly or behind an equals sign. -/
  | letters (text : List Char)
  deriving DecidableEq, Repr, Inhabited

/-- What is attached, as a text. -/
def Attached.text? : Attached → Option String
  | nothing => none
  | value text => some text
  | letters text => some (String.ofList text)

/-- A word of the command line. -/
inductive Word where
  /-- A source, or the value of an option. -/
  | plain (text : String)
  /-- The end of the options. -/
  | separator
  /-- An option. -/
  | flag (flag : Flag) (attached : Attached)
  /-- A word that looks like an option but is none. -/
  | unknown (text : String)
  deriving DecidableEq, Repr, Inhabited

namespace Word

/-- The text in front of the first equals sign, and the text behind it. -/
def splitValue : List Char → List Char × Option (List Char)
  | [] => ([], none)
  | '=' :: rest => ([], some rest)
  | c :: rest => let (name, value) := splitValue rest; (c :: name, value)

/-- What the text behind an equals sign attaches to a spelling. -/
def attach (name : List Char) : Option (List Char) → Attached
  | none => .nothing
  | some value =>
      match name with
      | '-' :: '-' :: _ => .value (String.ofList value)
      | _ => .letters value

/-- At least one decimal digit, up to a final line feed. -/
def isDigits : List Char → Bool
  | [] => false
  | [c] => isDecimalDigit c
  | [c, '\n'] => isDecimalDigit c
  | c :: rest => isDecimalDigit c && isDigits rest

/-- Decimal digits with at most one point, behind which there are some, up to a final line feed. -/
def isNumber (text : List Char) : Bool :=
  isDigits text ||
    match text.dropWhile isDecimalDigit with
    | '.' :: fraction => isDigits fraction
    | _ => false

/-- The options that a word may stand for that is no full spelling. -/
def candidates (text : List Char) : List (String × Word) :=
  match text with
  | '-' :: '-' :: _ =>
      let (name, value) := splitValue text
      (Flag.spelled.filter fun pair => name.isPrefixOf pair.1.toList).map fun (spelling, found) =>
        (spelling, .flag found (attach name value))
  | '-' :: letter :: rest =>
      (Flag.spelled.filter fun pair => pair.1 == String.ofList ['-', letter]).map
        fun (spelling, found) => (spelling, .flag found (.letters rest))
  | _ => []

/-- A word with a hyphen in front that is no full spelling. Of those that stand for no option, a
negative number and a word with a blank are plain. -/
def readPartial (text : String) : Except ArgumentFault Word :=
  match candidates text.toList with
  | [(_, word)] => .ok word
  | [] =>
      if isNumber text.toList.tail || text.toList.contains ' ' then .ok (.plain text)
      else .ok (.unknown text)
  | several => .error (.ambiguous text (several.map (·.1)))

/-- A word in front of the end of the options. -/
def read (text : String) : Except ArgumentFault Word :=
  match text.toList with
  | '-' :: _ :: _ =>
      let (name, value) := splitValue text.toList
      match Flag.ofSpelling? (String.ofList name) with
      | some found => .ok (.flag found (attach name value))
      | none => readPartial text
  | _ => .ok (.plain text)

/-- The words of a command line. -/
def readAll : List String → Except ArgumentFault (List Word)
  | [] => .ok []
  | "--" :: rest => .ok (.separator :: rest.map .plain)
  | text :: rest => do
      let word ← read text
      let words ← readAll rest
      return word :: words

end Word

/-! ## Arguments -/

/-- The value of an option. -/
inductive OptionValue where
  /-- A text. -/
  | given (text : String)
  /-- No text, although the option stands in the command line. -/
  | empty
  deriving DecidableEq, Repr, Inhabited

/-- The value that a word stands for: the word that ends the options leaves a value empty. -/
def OptionValue.ofWord (word : String) : OptionValue :=
  if word = "--" then .empty else .given word

/-- The text of a value. -/
def OptionValue.text? : OptionValue → Option String
  | given text => some text
  | empty => none

/-- What a command line asks to check, and how. -/
structure Arguments where
  /-- The files to check. -/
  sources : List String := []
  /-- The settings file. -/
  config : Option OptionValue := none
  /-- The directory of the project. -/
  projectRoot : Option OptionValue := none
  /-- Index the whole project. -/
  wholeProject : Bool := false
  /-- Look for no collisions. -/
  noCollisionCheck : Bool := false
  /-- The text in front of every message. -/
  messageLead : Option OptionValue := none
  /-- Report in JSON. -/
  json : Bool := false
  /-- Show the log. -/
  verbose : Bool := false
  deriving DecidableEq, Repr, Inhabited

/-- What a command line asks for. -/
inductive Request where
  /-- The help text. -/
  | help
  /-- A check. -/
  | check (arguments : Arguments)
  deriving DecidableEq, Repr, Inhabited

namespace Arguments

/-- Set an option that takes a value. -/
def setValue (arguments : Arguments) (value : OptionValue) : Flag → Arguments
  | .config => { arguments with config := some value }
  | .projectRoot => { arguments with projectRoot := some value }
  | .messageLead => { arguments with messageLead := some value }
  | _ => arguments

/-- Set an option that takes no value. -/
def setSwitch (arguments : Arguments) : Flag → Arguments
  | .wholeProject => { arguments with wholeProject := true }
  | .noCollisionCheck => { arguments with noCollisionCheck := true }
  | .json => { arguments with json := true }
  | .verbose => { arguments with verbose := true }
  | _ => arguments

end Arguments

/-- What has been read of a command line. -/
structure Reading where
  /-- The arguments so far. -/
  arguments : Arguments := {}
  /-- The list of sources has ended. -/
  closed : Bool := false
  /-- The words that are refused. -/
  refused : List String := []
  deriving DecidableEq, Repr, Inhabited

namespace Reading

/-- Read a plain word. -/
def plain (reading : Reading) (text : String) : Reading :=
  if reading.closed then { reading with refused := reading.refused ++ [text] }
  else
    { reading with
      arguments := { reading.arguments with sources := reading.arguments.sources ++ [text] } }

/-- Read the end of the options. Behind the sources it is one more word that is refused. -/
def separator (reading : Reading) : Reading :=
  if reading.closed then { reading with refused := reading.refused ++ ["--"] } else reading

/-- Read an option, which ends the list of sources if it has begun. -/
def close (reading : Reading) : Reading :=
  { reading with closed := !reading.arguments.sources.isEmpty }

/-- Refuse a word. -/
def refuse (reading : Reading) (text : String) : Reading :=
  { reading with refused := reading.refused ++ [text] }

/-- Set an option that takes a value. -/
def setValue (reading : Reading) (flag : Flag) (word : String) : Reading :=
  { reading with arguments := reading.arguments.setValue (.ofWord word) flag }

/-- Set options that take no value. There is no reading if one of them asks for help. -/
def setSwitches : Reading → List Flag → Option Reading
  | reading, [] => some reading
  | _, .help :: _ => none
  | reading, flag :: rest =>
      setSwitches { reading with arguments := reading.arguments.setSwitch flag } rest

/-- The options of a word of letters: the first one, and one for each letter behind it. -/
def cluster (flag : Flag) : List Char → Except ArgumentFault (List Flag)
  | [] => .ok [flag]
  | c :: rest =>
      match Flag.ofSpelling? (String.ofList ['-', c]) with
      | none => .error (.valueIgnored flag (String.ofList (c :: rest)))
      | some next => (cluster next rest).map (flag :: ·)

/-- The options that a word with an option stands for that takes no value. -/
def switches (flag : Flag) : Attached → Except ArgumentFault (List Flag)
  | .nothing => .ok [flag]
  | .value text => .error (.valueIgnored flag text)
  | .letters [] => .error (.valueIgnored flag "")
  | .letters letters => cluster flag letters

/-- Read words in order. There is no reading if help is asked for. -/
def words : Reading → List Word → Except ArgumentFault (Option Reading)
  | reading, [] => .ok (some reading)
  | reading, .plain text :: rest => words (reading.plain text) rest
  | reading, .separator :: rest => words reading.separator rest
  | reading, .unknown text :: rest => words (reading.close.refuse text) rest
  | reading, .flag flag attached :: rest =>
      if flag.takesValue then
        match attached.text?, rest with
        | some value, rest => words (reading.close.setValue flag value) rest
        | none, .plain value :: rest => words (reading.close.setValue flag value) rest
        | none, _ => .error (.valueMissing flag)
      else
        match switches flag attached with
        | .error fault => .error fault
        | .ok flags =>
            match reading.close.setSwitches flags with
            | none => .ok none
            | some reading => words reading rest

end Reading

/-- The request that a command line stands for. -/
def Arguments.read (texts : List String) : Except ArgumentFault Request := do
  match ← Reading.words {} (← Word.readAll texts) with
  | none => return .help
  | some reading =>
      if reading.arguments.sources.isEmpty then throw .sourcesMissing
      if !reading.refused.isEmpty then throw (.unrecognized reading.refused)
      return .check reading.arguments

end FrancaLint
