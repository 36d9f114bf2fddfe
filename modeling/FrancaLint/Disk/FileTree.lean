import FrancaLint.Disk.FileSystem
import FrancaLint.Text.Encoding

/-! # File trees

A **file tree** is the content of a file system without links as a value. Names are looked up
segment by segment, and a name fails at the first segment that cannot be entered.

Main definitions: `FileTree` with `addFile`, `addDirectory` and `remove`; `FileTree.locate`;
`FileTree.fileSystem`. -/

namespace FrancaLint

/-- A file of a tree. -/
structure FileContent where
  /-- The bytes. -/
  bytes : List UInt8
  /-- When they were written, in nanoseconds. -/
  modified : Int
  deriving DecidableEq, Repr, Inhabited

/-- A **file tree**; places are lists of names from the root on. -/
structure FileTree where
  /-- The directories below the root. -/
  directories : List (List String) := []
  /-- The files. -/
  files : List (List String × FileContent) := []
  /-- The place where relative names start. -/
  workingPlace : List String := []
  deriving DecidableEq, Repr, Inhabited

namespace FileTree

/-- The longest name of a file, in bytes. -/
def maxName : Nat :=
  255

/-- The longest path, in bytes. -/
def maxPath : Nat :=
  4095

/-- The status of a directory has this size. -/
def directorySize : Nat :=
  4096

/-! ## Changes -/

/-- Every place on the way to a place, the place itself included, the root left out. -/
def placesTo (place : List String) : List (List String) :=
  (List.range place.length).map fun n => place.take (n + 1)

/-- Make a directory and those that it lies in. -/
def addDirectory (tree : FileTree) (place : List String) : FileTree :=
  { tree with directories := (tree.directories ++ placesTo place).eraseDups }

/-- Write a file and make the directories that it lies in. -/
def addFile (tree : FileTree) (place : List String) (content : FileContent) : FileTree :=
  let tree := tree.addDirectory place.dropLast
  { tree with files := (place, content) :: tree.files.filter (·.1 != place) }

/-- Remove a file. -/
def remove (tree : FileTree) (place : List String) : FileTree :=
  { tree with files := tree.files.filter (·.1 != place) }

/-! ## Look-up -/

/-- The place is a directory. -/
def isDirectory (tree : FileTree) (place : List String) : Bool :=
  place.isEmpty || tree.directories.contains place

/-- Enter one segment of a path from a place. -/
def enter (tree : FileTree) (place : List String) (segment : String) :
    Except FileFault (List String) :=
  if !tree.isDirectory place then .error .notDirectory
  else if segment = "" ∨ segment = "." then .ok place
  else if segment = ".." then .ok place.dropLast
  else if maxName < (utf8Bytes segment).length then .error .nameTooLong
  else
    let child := place ++ [segment]
    if tree.isDirectory child || (tree.files.lookup child).isSome then .ok child
    else .error .missing

/-- The place that a path leads to. -/
def locate (tree : FileTree) (path : String) : Except FileFault (List String) :=
  let chars := path.toList
  if FileName.hasNull path then .error .nullCharacter
  else if chars.isEmpty then .error .missing
  else if maxPath < (utf8Bytes path).length then .error .nameTooLong
  else
    ((Path.segments chars).map String.ofList).foldlM tree.enter
      (if Path.isRooted chars then [] else tree.workingPlace)

/-- The status of a file. -/
def status (tree : FileTree) (path : String) : Except FileFault FileStatus :=
  match tree.locate path with
  | .error fault => .error fault
  | .ok place =>
      match tree.files.lookup place with
      | some content => .ok { modified := content.modified, size := content.bytes.length }
      | none => .ok { modified := 0, size := directorySize, isDirectory := true }

/-- The bytes of a file. -/
def read (tree : FileTree) (path : String) : Except FileFault (List UInt8) :=
  match tree.locate path with
  | .error fault => .error fault
  | .ok place =>
      match tree.files.lookup place with
      | some content => .ok content.bytes
      | none => .error .isDirectory

/-- The files below a directory. -/
def filesBelow (tree : FileTree) (path : String) : List (List String) :=
  match tree.locate path with
  | .error _ => []
  | .ok place =>
      (tree.files.filter fun file => place.isPrefixOf file.1 && file.1 != place).map fun file =>
        file.1.drop place.length

/-- The name of the place where relative names start. -/
def workingDirectory (tree : FileTree) : String :=
  "/" ++ "/".intercalate tree.workingPlace

/-- The tree as a file system. -/
def fileSystem {m : Type → Type} [Monad m] (tree : FileTree) : FileSystem m where
  status path := return tree.status path
  read path := return tree.read path
  filesBelow path := return tree.filesBelow path
  workingDirectory := return tree.workingDirectory
  absolute path := return FileName.absolute tree.workingDirectory path

end FileTree

end FrancaLint
