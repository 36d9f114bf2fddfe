import FrancaLint.CommandLine.Usage
import FrancaLint.Disk.FileLoader
import FrancaLint.Disk.SettingsFile
import FrancaLint.Project
import FrancaLint.Validation

/-! # Runs of the command line

A run reads the settings, loads the project if the settings ask for it, and validates the sources in
order. All sources share what has been read from files and the index of the project. An option with
an empty value ends the run where its value is needed.

Main definitions: `CommandLine.run`, the findings of a run; `CommandLine.reply`, what a command line
prints, and its exit code. -/

namespace FrancaLint

/-- Why a run ends without findings. -/
inductive RunFault where
  /-- The settings file holds no settings. -/
  | settings (fault : SettingsFileFault)
  /-- The option for the settings file is empty. -/
  | settingsFileEmpty
  /-- The whole project is asked for, but no directory is given. -/
  | rootMissing
  /-- The option for the directory of the project is empty. -/
  | rootEmpty
  /-- The directory of the project is none. -/
  | rootNotDirectory (root : String)
  /-- A name is not even looked up. -/
  | unusableName (fault : UnusableName)
  /-- There are findings, but the option for the text in front of their messages is empty. -/
  | messageLeadEmpty
  deriving DecidableEq, Repr

namespace RunFault

/-- The text that reports a fault. -/
def message : RunFault → String
  | settings fault => fault.message
  | settingsFileEmpty => "'list' object has no attribute 'read_text'"
  | rootMissing => "--whole-project requires --project-root"
  | rootEmpty => "'list' object has no attribute 'is_dir'"
  | rootNotDirectory root => "project root is not a directory: " ++ root
  | unusableName fault => fault.message
  | messageLeadEmpty => "can only concatenate list (not \"str\") to list"

/-- The fault is reported as one of the configuration. The others end the program. -/
def isReported : RunFault → Bool
  | settings fault => fault.isReported
  | rootMissing => true
  | rootNotDirectory _ => true
  | _ => false

/-- The file that a fault is reported for, where the settings file is given. -/
def file? (given : Option String) : RunFault → Option String
  | settings _ => given
  | _ => none

end RunFault

namespace Arguments

/-- The settings that the arguments replace. -/
def overrides (arguments : Arguments) : Settings.Overrides where
  wholeProject := if arguments.wholeProject then some true else none
  collisionCheck := if arguments.noCollisionCheck then some false else none
  messageLead := arguments.messageLead.bind OptionValue.text?

/-- The settings file that is given. -/
def settingsFile? (arguments : Arguments) : Option String :=
  (arguments.config.bind OptionValue.text?).map FileName.tidy

/-- The log shows a notice: warnings always, others if it is asked to. -/
def shows (arguments : Arguments) (notice : Notice) : Bool :=
  arguments.verbose || notice.level == .warning

end Arguments

namespace CommandLine

variable {m : Type → Type} [Monad m]

/-! ## Settings and project -/

/-- The settings file: the one that is given, or else that of the working directory, if there is
one. -/
def findSettings (fs : FileSystem m) (arguments : Arguments) :
    m (Except RunFault (Option String)) := do
  match arguments.config with
  | some (.given name) => return .ok (some (FileName.tidy name))
  | some .empty => return .error .settingsFileEmpty
  | none =>
      let name := FileName.below (← fs.workingDirectory) [Settings.defaultFile]
      return .ok (if ← fs.exists? name then some name else none)

/-- The settings of a run. -/
def readSettings (fs : FileSystem m) (arguments : Arguments) : m (Except RunFault Settings) := do
  match ← findSettings fs arguments with
  | .error fault => return .error fault
  | .ok none => return .ok (({} : Settings).override arguments.overrides)
  | .ok (some name) =>
      match ← SettingsFile.load fs name with
      | .error fault => return .error (.settings fault)
      | .ok settings => return .ok (settings.override arguments.overrides)

/-- The directory of the project, if the settings ask for it. -/
def findProject (fs : FileSystem m) (arguments : Arguments) (settings : Settings) :
    m (Except RunFault (Option String)) := do
  if !settings.wholeProject then return .ok none
  match arguments.projectRoot with
  | none => return .error .rootMissing
  | some .empty => return .error .rootEmpty
  | some (.given name) =>
      let root := FileName.tidy name
      match ← fs.isDirectory root with
      | .error fault => return .error (.unusableName fault)
      | .ok false => return .error (.rootNotDirectory root)
      | .ok true => return .ok (some root)

/-- The documents of the project below a directory. -/
def loadProject (fs : FileSystem m) (loader : Loader (StateT FileCache m)) (settings : Settings)
    (root : String) : StateT FileCache m (Except RunFault (List Document)) := do
  let absolute ← StateT.lift (fs.absolute root)
  match ← StateT.lift (Project.discover fs absolute settings.skippedDirectories) with
  | .error fault => return .error (.unusableName fault)
  | .ok files =>
      let project ← Project.load loader root absolute files
      project.failures.forM fun failure =>
        loader.notify (.notIndexed failure.path failure.reason)
      return .ok project.documents

/-- The documents of the project, if the settings ask for it. -/
def readProject (fs : FileSystem m) (loader : Loader (StateT FileCache m)) (arguments : Arguments)
    (settings : Settings) : StateT FileCache m (Except RunFault (Option (List Document))) := do
  match ← StateT.lift (findProject fs arguments settings) with
  | .error fault => return .error fault
  | .ok none => return .ok none
  | .ok (some root) => return (← loadProject fs loader settings root).map some

/-! ## Sources -/

/-- Validate the files that some sources name, in order. They share the index of the project. -/
def validateAll (checker : Checker m) (absolute : String → m String)
    (project : Option (List Document)) : List String → IndexCache → m (List Diagnostic)
  | [], _ => return []
  | source :: rest, cache => do
      let path ← absolute source
      let (validation, cache) ← checker.validatePath path project cache
      let others ← validateAll checker absolute project rest cache
      return validation.diagnostics ++ others

/-- The result of a run that has validated the sources in front of the first one whose name is not
even looked up. -/
def conclude (arguments : Arguments) (diagnostics : List Diagnostic) :
    Except RunFault (List Diagnostic) :=
  if arguments.messageLead = some .empty ∧ diagnostics ≠ [] then .error .messageLeadEmpty
  else if arguments.sources.any FileName.hasNull then .error (.unusableName .nullCharacter)
  else .ok diagnostics

/-- Validate the sources. -/
def validateSources (fs : FileSystem m) (loader : Loader (StateT FileCache m))
    (arguments : Arguments) (settings : Settings) :
    StateT FileCache m (Except RunFault (List Diagnostic)) := do
  match ← readProject fs loader arguments settings with
  | .error fault => return .error fault
  | .ok project =>
      let checker : Checker (StateT FileCache m) := { loader := loader, settings := settings }
      let absolute (source : String) := StateT.lift (fs.absolute source)
      let usable := arguments.sources.takeWhile fun source => !FileName.hasNull source
      return conclude arguments (← validateAll checker absolute project usable {})

/-- The findings of a run. Notices that the log shows are logged. -/
def run (fs : FileSystem m) (log : Notice → m Unit) (arguments : Arguments) :
    m (Except RunFault (List Diagnostic)) := do
  match ← readSettings fs arguments with
  | .error fault => return .error fault
  | .ok settings =>
      let loader := fileLoader fs .utf8 fun notice =>
        if arguments.shows notice then log notice else pure ()
      (validateSources fs loader arguments settings).run' []

/-! ## Replies -/

/-- What a command line prints, and its exit code. -/
structure Reply where
  /-- Zero without errors, one with errors, two if nothing has been checked. -/
  exitCode : Nat := 0
  /-- The text for the standard output. -/
  output : String := ""
  /-- The text for the standard error, behind the log. -/
  errors : String := ""
  deriving DecidableEq, Repr, Inhabited

/-- The exit code for findings. -/
def exitCode (diagnostics : List Diagnostic) : Nat :=
  if hasErrors diagnostics then 1 else 0

/-- The reply with findings. -/
def report (json : Bool) (diagnostics : List Diagnostic) : Reply :=
  let code := exitCode diagnostics
  if json then { exitCode := code, output := jsonReport code (diagnostics.map (·.toJson)) }
  else { exitCode := code, errors := textReport diagnostics }

/-- The reply with a fault of the configuration. -/
def configurationFault (json : Bool) (file : Option String) (message : String) : Reply :=
  if json then { exitCode := 2, output := jsonReport 2 [configurationJson file message] }
  else { exitCode := 2, errors := configurationLine file message }

/-- The reply to a request for a check. A fault that is not reported ends the program. -/
def checkReply (fs : FileSystem m) (log : Notice → m Unit) (arguments : Arguments) :
    m (Except RunFault Reply) := do
  match ← run fs log arguments with
  | .ok diagnostics => return .ok (report arguments.json diagnostics)
  | .error fault =>
      if fault.isReported then
        return .ok (configurationFault arguments.json (fault.file? arguments.settingsFile?)
          fault.message)
      else return .error fault

/-- The reply to a command line. -/
def reply (fs : FileSystem m) (log : Notice → m Unit) (texts : List String) :
    m (Except RunFault Reply) :=
  match Arguments.read texts with
  | .error fault => return .ok { exitCode := 2, errors := usageFault fault }
  | .ok .help => return .ok { output := helpText }
  | .ok (.check arguments) => checkReply fs log arguments

end CommandLine

end FrancaLint
