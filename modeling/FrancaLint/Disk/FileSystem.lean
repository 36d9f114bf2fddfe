import FrancaLint.Path
import FrancaLint.Text.Literal

/-! # File systems

What the checker asks of a file system, in any monad: the status and the bytes of a file, its
absolute name, and the files below a directory. The names of files are texts; `FileName.tidy` and
`FileName.absolute` are their spellings without and with a directory in front. -/

namespace FrancaLint

/-- Why a file is not to be had. -/
inductive FileFault where
  /-- There is no file of that name. -/
  | missing
  /-- Something on the way to the file is no directory. -/
  | notDirectory
  /-- The file is a directory. -/
  | isDirectory
  /-- The name is too long. -/
  | nameTooLong
  /-- The name has a null character. -/
  | nullCharacter
  /-- Any other reason. -/
  | other (reason : String)
  deriving DecidableEq, Repr, Inhabited

/-- The text that reports a fault. -/
def FileFault.message : FileFault → String
  | missing => "No such file or directory"
  | notDirectory => "Not a directory"
  | isDirectory => "Is a directory"
  | nameTooLong => "File name too long"
  | nullCharacter => "embedded null byte"
  | other reason => reason

/-- Why a name is not even looked up. -/
inductive UnusableName where
  /-- The name has a null character. -/
  | nullCharacter
  /-- The name is too long. -/
  | tooLong (name : String)
  deriving DecidableEq, Repr, Inhabited

/-- The text that reports an unusable name. -/
def UnusableName.message : UnusableName → String
  | nullCharacter => FileFault.nullCharacter.message
  | tooLong name =>
      "[Errno 36] " ++ FileFault.nameTooLong.message ++ ": " ++ Literal.ofText name

/-- What a file system knows about a file without reading it. -/
structure FileStatus where
  /-- When the file was changed, in nanoseconds. -/
  modified : Int
  /-- The number of bytes. -/
  size : Nat
  /-- The file is a directory. -/
  isDirectory : Bool := false
  deriving DecidableEq, Repr, Inhabited

/-- A **file system**. -/
structure FileSystem (m : Type → Type) where
  /-- The status of a file. -/
  status : String → m (Except FileFault FileStatus)
  /-- The bytes of a file. -/
  read : String → m (Except FileFault (List UInt8))
  /-- The files below a directory, as lists of names, in any order. -/
  filesBelow : String → m (List (List String))
  /-- The working directory. -/
  workingDirectory : m String
  /-- The absolute name of a file. Symbolic links on the way to the file are followed. -/
  absolute : String → m String

namespace FileSystem

variable {m : Type → Type} [Monad m]

/-- There is a file or a directory of that name. -/
def exists? (fs : FileSystem m) (path : String) : m Bool := do
  match ← fs.status path with
  | .ok _ => return true
  | .error _ => return false

/-- There is a directory of that name. -/
def isDirectory (fs : FileSystem m) (path : String) : m (Except UnusableName Bool) := do
  match ← fs.status path with
  | .ok status => return .ok status.isDirectory
  | .error .nameTooLong => return .error (.tooLong path)
  | .error _ => return .ok false

end FileSystem

namespace FileName

/-- The start of a name that keeps it absolute: exactly two slashes are kept. -/
def leading : List Char → List Char
  | '/' :: '/' :: '/' :: _ => ['/']
  | '/' :: '/' :: _ => ['/', '/']
  | '/' :: _ => ['/']
  | _ => []

/-- The spelling of a name without empty and `.` segments. -/
def tidy (name : String) : String :=
  let chars := name.toList
  let kept := (Path.segments chars).filter fun s => !s.isEmpty && s != Path.here
  let text := leading chars ++ Path.join kept
  if text.isEmpty then "." else String.ofList text

/-- The name has a null character. -/
def hasNull (name : String) : Bool :=
  name.toList.contains (Char.ofNat 0)

/-- The absolute spelling of a name without empty, `.` and `..` segments, where no symbolic links
are on the way. -/
def absolute (directory name : String) : String :=
  let chars := name.toList
  String.ofList (Path.fold (if Path.isRooted chars then chars
    else directory.toList ++ '/' :: chars))

/-- The name of a file below a directory. -/
def below (directory : String) (names : List String) : String :=
  let start := if directory = "/" then "" else directory
  start ++ "/" ++ "/".intercalate names

end FileName

end FrancaLint
