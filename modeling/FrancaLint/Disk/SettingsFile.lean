import FrancaLint.Disk.FileSystem
import FrancaLint.Json.Reader
import FrancaLint.Settings
import FrancaLint.Text.Encoding

/-! # Settings files

Main definitions: `SettingsFile.ofBytes`, the settings that the bytes of a file stand for, and
`SettingsFile.load`. -/

namespace FrancaLint

/-- Why a file holds no settings. -/
inductive SettingsFileFault where
  /-- The file cannot be read. -/
  | unreadable (path reason : String)
  /-- The name of the file cannot be used. -/
  | unusableName
  /-- The file is not in UTF-8. -/
  | undecodable (fault : DecodeFault)
  /-- The file is not in JSON. -/
  | malformed (path : String) (defect : Json.Defect) (line : Nat)
  /-- The file holds an integer with too many digits. -/
  | tooManyDigits (count : Nat)
  /-- The file holds an array or an object that lies in too many others. -/
  | tooDeep (container : Json.Container)
  /-- The file holds another value than an object. -/
  | notObject
  /-- The object holds no settings. -/
  | invalid (fault : SettingsFault)
  deriving DecidableEq, Repr

namespace SettingsFileFault

/-- The text that reports a fault. -/
def message : SettingsFileFault → String
  | unreadable path reason => "cannot read config " ++ path ++ ": " ++ reason
  | unusableName => FileFault.nullCharacter.message
  | undecodable fault => fault.message
  | malformed path defect line =>
      "config " ++ path ++ " is not valid JSON: " ++ defect.message ++
        " (line " ++ toString line ++ ")"
  | tooManyDigits count => (Json.Defect.tooManyDigits count).message
  | tooDeep container => (Json.Defect.tooDeep container).message
  | notObject => "config must be a JSON object"
  | invalid fault => fault.message

/-- The fault is reported as one of the configuration. The others end the program. -/
def isReported : SettingsFileFault → Bool
  | unusableName => false
  | undecodable _ => false
  | tooManyDigits _ => false
  | tooDeep _ => false
  | _ => true

end SettingsFileFault

namespace SettingsFile

/-- The settings that a text stands for, with at most so many containers in one another. -/
def ofText (path text : String) (depth : Nat) : Except SettingsFileFault Settings :=
  match Json.read text depth with
  | .error (.tooManyDigits count, _) => .error (.tooManyDigits count)
  | .error (.tooDeep container, _) => .error (.tooDeep container)
  | .error (defect, line) => .error (.malformed path defect line)
  | .ok (.object fields) => (Settings.ofFields fields).mapError .invalid
  | .ok _ => .error .notObject

/-- The settings that the bytes of a file stand for. -/
def ofBytes (path : String) (bytes : List UInt8) (depth : Nat) :
    Except SettingsFileFault Settings :=
  match Encoding.utf8.decode bytes with
  | .error fault => .error (.undecodable fault)
  | .ok text => ofText path (String.ofList (unifyLineEnds text.toList)) depth

/-- The settings in a file. -/
def load {m : Type → Type} [Monad m] (fs : FileSystem m) (path : String)
    (depth : Nat := Json.maxDepth) : m (Except SettingsFileFault Settings) := do
  match ← fs.read path with
  | .error .nullCharacter => return .error .unusableName
  | .error fault => return .error (.unreadable path fault.message)
  | .ok bytes => return ofBytes path bytes depth

end SettingsFile

end FrancaLint
