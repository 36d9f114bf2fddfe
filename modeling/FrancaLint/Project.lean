import FrancaLint.Disk.FileSystem
import FrancaLint.Loader

/-! # Projects

A **project** is every Franca file below a directory, except those in directories that are skipped.

Main definitions: `Project.discover`, `Project.load`. -/

namespace FrancaLint

/-- The documents of a project, and the files that could not be loaded. -/
structure Project where
  /-- The identifier of the directory. -/
  root : String
  /-- The documents, in the order of their files. -/
  documents : List Document := []
  /-- The files that could not be loaded. -/
  failures : List LoadFailure := []
  deriving DecidableEq, Repr, Inhabited

namespace Project

/-- The name is that of a Franca file. -/
def isSourceName (name : String) : Bool :=
  ".fidl".toList.isSuffixOf name.toList

/-- A file belongs to a project: it is a Franca file and lies in no skipped directory. -/
def isMember (skipped : List String) (names : List String) : Bool :=
  (match names.getLast? with
    | some name => isSourceName name
    | none => false) &&
  names.dropLast.all fun name => !skipped.contains name

/-- Files are ordered by their names from the outermost directory on. -/
def notAfter : List String → List String → Bool
  | [], _ => true
  | _ :: _, [] => false
  | a :: as, b :: bs => if a = b then notAfter as bs else a ≤ b

variable {m : Type → Type} [Monad m]

/-- The files of a project, in order. -/
def arrange (root : String) (skipped : List String) (files : List (List String)) : List String :=
  ((files.filter (isMember skipped)).mergeSort notAfter).map (FileName.below root)

/-- The Franca files below a directory with an absolute name. -/
def discover (fs : FileSystem m) (root : String) (skipped : List String) :
    m (Except UnusableName (List String)) := do
  if FileName.hasNull root then return .error .nullCharacter
  match ← fs.isDirectory root with
  | .error fault => return .error fault
  | .ok false => return .ok []
  | .ok true => return .ok (arrange root skipped (← fs.filesBelow root))

/-- Load one more file of a project. -/
def addFile (loader : Loader m) (project : Project) (path : String) : m Project := do
  match ← loader.load (Path.normalize path) with
  | .ok document => return { project with documents := project.documents ++ [document] }
  | .error failure => return { project with failures := project.failures ++ [failure] }

/-- Load the files of a project. Its directory is named as it was given and by its absolute name. -/
def load (loader : Loader m) (directory root : String) (files : List String) : m Project := do
  let project ← files.foldlM (addFile loader) { root := Path.normalize root }
  loader.notify
    (.projectLoaded directory project.documents.length project.failures.length)
  return project

end Project

end FrancaLint
