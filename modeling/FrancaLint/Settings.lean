import FrancaLint.Json.Value

/-! # Settings

The switches of the checker, and the settings file: a JSON object with a fixed format and version.
Main definitions: `Settings`, `Settings.ofFields`, `Settings.override`. -/

namespace FrancaLint

/-- What the checker does. -/
structure Settings where
  /-- A disabled checker reports nothing. -/
  enabled : Bool := true
  /-- All files of the project are indexed, not only those that the root imports. -/
  wholeProject : Bool := false
  /-- Collisions are looked for. -/
  collisionCheck : Bool := true
  /-- Among collisions, elements of the same qualified name are looked for. -/
  sameNameCheck : Bool := true
  /-- The text in front of every message. -/
  messageLead : String := ""
  /-- The names of directories that do not belong to a project. -/
  skippedDirectories : List String := ["bin"]
  deriving DecidableEq, Repr, Inhabited

/-- Why an object holds no settings. -/
inductive SettingsFault where
  /-- The format or the version is another one. -/
  | unsupported
  /-- The value of a key is no truth value. -/
  | notBoolean (key : String)
  /-- The value of a key is no text. -/
  | notText (key : String)
  /-- The value of a key is no list of texts. -/
  | notTexts (key : String)
  deriving DecidableEq, Repr

/-- The text that reports a fault. -/
def SettingsFault.message : SettingsFault → String
  | unsupported => "unsupported config format/version"
  | notBoolean key => "config key '" ++ key ++ "' must be a boolean"
  | notText key => "config key '" ++ key ++ "' must be a string"
  | notTexts key => "config key '" ++ key ++ "' must be a list of strings"

namespace Settings

/-- The format of settings files. -/
def format : String :=
  "fidlcheck-config"

/-- The file of a directory that holds its settings. -/
def defaultFile : String :=
  "fidlcheck.json"

/-- The texts of a list of values, if all of them are texts. -/
def texts? : List Json → Option (List String)
  | [] => some []
  | .string text :: rest => (texts? rest).map (text :: ·)
  | _ => none

/-- The truth value of a key, or a default if the key is missing. -/
def boolean (fields : List (String × Json)) (key : String) (default : Bool) :
    Except SettingsFault Bool :=
  match Json.field? fields key with
  | none => .ok default
  | some (.bool value) => .ok value
  | some _ => .error (.notBoolean key)

/-- The text of a key, or a default if the key is missing. -/
def textValue (fields : List (String × Json)) (key default : String) :
    Except SettingsFault String :=
  match Json.field? fields key with
  | none => .ok default
  | some (.string value) => .ok value
  | some _ => .error (.notText key)

/-- The list of texts of a key, or a default if the key is missing. -/
def textValues (fields : List (String × Json)) (key : String) (default : List String) :
    Except SettingsFault (List String) :=
  match Json.field? fields key with
  | none => .ok default
  | some (.array items) =>
      match texts? items with
      | some values => .ok values
      | none => .error (.notTexts key)
  | some _ => .error (.notTexts key)

/-- The fields have the format and the version of settings. -/
def isSupported (fields : List (String × Json)) : Bool :=
  (match Json.field? fields "format" with
    | some (.string value) => value == format
    | _ => false) &&
  (match Json.field? fields "version" with
    | some value => value.isZero
    | none => false)

/-- The settings in the fields of an object. Other keys do not matter. -/
def ofFields (fields : List (String × Json)) : Except SettingsFault Settings := do
  if !isSupported fields then throw .unsupported
  let enabled ← boolean fields "enabled" true
  let wholeProject ← boolean fields "whole_project" false
  let collisionCheck ← boolean fields "package_collision_check" true
  let sameNameCheck ← boolean fields "same_name_check" true
  let messageLead ← textValue fields "message_prefix" ""
  let skippedDirectories ← textValues fields "skip_dirs" ["bin"]
  return {
    enabled := enabled, wholeProject := wholeProject, collisionCheck := collisionCheck,
    sameNameCheck := sameNameCheck, messageLead := messageLead,
    skippedDirectories := skippedDirectories }

/-- Settings that replace others where they are given. -/
structure Overrides where
  /-- Replaces `Settings.enabled`. -/
  enabled : Option Bool := none
  /-- Replaces `Settings.wholeProject`. -/
  wholeProject : Option Bool := none
  /-- Replaces `Settings.collisionCheck`. -/
  collisionCheck : Option Bool := none
  /-- Replaces `Settings.sameNameCheck`. -/
  sameNameCheck : Option Bool := none
  /-- Replaces `Settings.messageLead`. -/
  messageLead : Option String := none
  /-- Replaces `Settings.skippedDirectories`. -/
  skippedDirectories : Option (List String) := none
  deriving DecidableEq, Repr, Inhabited

/-- The settings with those that are given replaced. -/
def override (settings : Settings) (given : Overrides) : Settings where
  enabled := given.enabled.getD settings.enabled
  wholeProject := given.wholeProject.getD settings.wholeProject
  collisionCheck := given.collisionCheck.getD settings.collisionCheck
  sameNameCheck := given.sameNameCheck.getD settings.sameNameCheck
  messageLead := given.messageLead.getD settings.messageLead
  skippedDirectories := given.skippedDirectories.getD settings.skippedDirectories

end Settings

end FrancaLint
