import FrancaLint.CommandLine.Run

/-! # The program

The files of the machine as a file system, and the program that replies to its command line. -/

namespace FrancaLint

/-! ## The files of the machine -/

/-- The fault of an error with a number and a description. -/
def FileFault.ofNumber (code : UInt32) (details : String) : FileFault :=
  let number := if code < 0x80000000 then code.toNat else 0x100000000 - code.toNat
  match number with
  | 2 => .missing
  | 20 => .notDirectory
  | 21 => .isDirectory
  | 36 => .nameTooLong
  | _ => .other details

/-- The fault behind an error. -/
def FileFault.ofError : IO.Error → FileFault
  | .noFileOrDirectory _ code details => .ofNumber code details
  | .inappropriateType _ code details => .ofNumber code details
  | .invalidArgument _ code details => .ofNumber code details
  | .permissionDenied _ code details => .ofNumber code details
  | .resourceExhausted _ code details => .ofNumber code details
  | .otherError code details => .ofNumber code details
  | error => .other (toString error)

/-- The answer to a question about a file. -/
def answerFor {α : Type} (path : String) (ask : IO α) : IO (Except FileFault α) := do
  if FileName.hasNull path then return .error .nullCharacter
  match ← ask.toBaseIO with
  | .ok answer => return .ok answer
  | .error error => return .error (.ofError error)

/-- The status of a file on the machine. -/
def diskStatus (path : String) : IO FileStatus := do
  let data ← ((← IO.currentDir) / path).metadata
  return {
    modified := data.modified.sec * 1000000000 + data.modified.nsec.toNat
    size := data.byteSize.toNat
    isDirectory := data.type == .dir }

/-- The files below a directory on the machine. A link to a directory is not followed. -/
partial def diskFilesBelow (path : String) : IO (List (List String)) := do
  let entries ← ((← IO.currentDir) / path).readDir
  let found ← entries.toList.mapM fun entry => do
    let data ← entry.path.symlinkMetadata
    if data.type == .dir then
      return (← diskFilesBelow entry.path.toString).map (entry.fileName :: ·)
    else return [[entry.fileName]]
  return found.flatten

/-- The absolute name of a file on the machine, with every link followed that leads somewhere. -/
def diskAbsolute (path : String) : IO String := do
  let directory := (← IO.currentDir).toString
  let start := if Path.isRooted path.toList then "/" else directory
  ((Path.segments path.toList).map String.ofList).foldlM enter start
where
  /-- Follow one more segment from a place. -/
  enter (place segment : String) : IO String := do
    let next := FileName.absolute place segment
    match ← (IO.FS.realPath next).toBaseIO with
    | .ok target => return target.toString
    | .error _ => return next

/-- The files of the machine. -/
def diskFileSystem : FileSystem IO where
  status path := answerFor path (diskStatus path)
  read path := answerFor path do return (← IO.FS.readBinFile path).toList
  filesBelow path := diskFilesBelow path
  workingDirectory := return (← IO.currentDir).toString
  absolute := diskAbsolute

/-! ## The program -/

/-- Write a notice to the log. -/
def logNotice (notice : Notice) : IO Unit :=
  IO.eprintln notice.line

end FrancaLint

open FrancaLint in
/-- Reply to a command line. -/
def main (texts : List String) : IO UInt32 := do
  match ← CommandLine.reply diskFileSystem logNotice texts with
  | .ok reply =>
      IO.print reply.output
      IO.eprint reply.errors
      return reply.exitCode.toUInt32
  | .error fault =>
      IO.eprintln (CommandLine.program ++ ": " ++ fault.message)
      return 1
