import FrancaLint.Graph.Reach
import FrancaLint.Loader
import FrancaLint.Path

/-! # Import closures

The **closure** of a root document holds every file that it imports, directly or through other
files. Files are visited breadth first; each is loaded at most once, and one that fails to load is
not tried again. Relative imports are relative to the directory of the file that declares them.

Main definitions: `Closure`, `Closure.resolve`, `Closure.transitiveImports`. -/

namespace FrancaLint

/-- An import whose target could not be loaded. -/
structure FailedImport where
  /-- The file that declares the import. -/
  importer : String
  /-- The file it asks for. -/
  target : String
  /-- Why there is no document. -/
  reason : String
  /-- The position of the import in its file. -/
  index : Nat
  deriving DecidableEq, Repr, Inhabited

/-- The files that a root document imports. -/
structure Closure where
  /-- The identifier of the root. -/
  root : String
  /-- For the root and every loaded file, the targets of its imports in order. -/
  imports : List (String × List String) := []
  /-- The files that could not be loaded, with the reasons. -/
  failed : List (String × String) := []
  /-- Every import of such a file, in the order of discovery. -/
  failedImports : List FailedImport := []
  /-- The root and every loaded file. -/
  documents : List (String × Document) := []
  deriving DecidableEq, Repr, Inhabited

/-- The identifiers that the imports of a document ask for, relative to a directory. -/
def Document.importTargets (document : Document) (directory : String) : List String :=
  document.imports.map fun i => Path.resolve i.uri directory

/-- The directory that holds a document. -/
def Document.directory (document : Document) : String :=
  Path.directory document.sourcePath

namespace Closure

/-! ## Queries -/

/-- The file is the root or has been loaded. -/
def contains (closure : Closure) (path : String) : Bool :=
  closure.imports.any (·.1 == Path.normalize path)

/-- The files that can be reached from an identifier through at least one import. -/
def reachableFrom (closure : Closure) (identifier : String) : List String :=
  Graph.reach closure.imports (Graph.successors closure.imports identifier) []

/-- The files that a file imports, directly or through other files; the file itself is among them
only if a cycle leads back to it. Files that failed to load are included. -/
def importsFrom (closure : Closure) (path : String) : List String :=
  closure.reachableFrom (Path.normalize path)

/-- The files that the root imports, directly or through other files. -/
def transitiveImports (closure : Closure) : List String :=
  closure.reachableFrom closure.root

/-- The root imports the file, directly or through other files. -/
def isImported (closure : Closure) (path : String) : Bool :=
  closure.transitiveImports.contains (Path.normalize path)

/-- The root and every loaded file, sorted by identifier. -/
def loadedDocuments (closure : Closure) : List Document :=
  (closure.documents.mergeSort fun a b => a.1 ≤ b.1).map (·.2)

/-! ## Resolution -/

/-- A closure under construction: what has been found, and the files whose imports still have to be
visited, each with its targets. -/
structure Walk where
  /-- What has been found. -/
  found : Closure
  /-- The files whose imports still have to be visited. -/
  pending : List (String × List String)

variable {m : Type → Type} [Monad m]

/-- Record an import that failed. -/
def addFailure (closure : Closure) (edge : FailedImport) : Closure :=
  { closure with failedImports := closure.failedImports ++ [edge] }

/-- Visit one import of a file. -/
def visit (loader : Loader m) (importer : String) (walk : Walk) (edge : String × Nat) :
    m Walk := do
  let (target, index) := edge
  match walk.found.failed.lookup target with
  | some reason =>
      return { walk with found := walk.found.addFailure ⟨importer, target, reason, index⟩ }
  | none =>
      if walk.found.documents.any (·.1 == target) then return walk
      match ← loader.load target with
      | .error failure =>
          loader.notify (.importFailed target importer failure.reason)
          let found :=
            { walk.found with failed := walk.found.failed ++ [(target, failure.reason)] }
          return { walk with
            found := found.addFailure ⟨importer, target, failure.reason, index⟩ }
      | .ok document =>
          let targets := document.importTargets (Path.directory target)
          loader.notify (.expanded target targets.length)
          return {
            found := { walk.found with
              documents := walk.found.documents ++ [(target, document)]
              imports := walk.found.imports ++ [(target, targets)] }
            pending := walk.pending ++ [(target, targets)] }

/-- Visit the imports of pending files, of as many files as the limit allows. -/
def visitPending (loader : Loader m) : Nat → Walk → m Walk
  | 0, walk => return walk
  | limit + 1, walk =>
      match walk.pending with
      | [] => return walk
      | (importer, targets) :: rest => do
          let walk ← targets.zipIdx.foldlM (visit loader importer)
            { walk with pending := rest }
          visitPending loader limit walk

/-- The directory that the imports of a root are relative to: a given one, if it is not empty, or
else that of the root. -/
def rootDirectory (root : Document) (directory : Option String) : String :=
  match directory with
  | none => root.directory
  | some path => if path.isEmpty then root.directory else Path.normalize path

/-- A walk that has found nothing but the root. -/
def start (root : Document) (directory : Option String) : Walk :=
  let path := Path.normalize root.sourcePath
  let targets := root.importTargets (rootDirectory root directory)
  { found := { root := path, imports := [(path, targets)], documents := [(path, root)] }
    pending := [(path, targets)] }

/-- The closure of a root. The limit bounds the number of files whose imports are visited; a closure
with fewer files does not depend on it. -/
def resolve (loader : Loader m) (limit : Nat) (root : Document) (directory : Option String) :
    m Closure := do
  let walk ← visitPending loader limit (start root directory)
  return walk.found

end Closure

end FrancaLint
