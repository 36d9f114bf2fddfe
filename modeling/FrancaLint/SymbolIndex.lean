import FrancaLint.Model
import FrancaLint.Path

/-! # The symbol index

The **index** of some documents lists every named element by its qualified name, and the package of
every file, in an order that does not depend on the order of the documents.

Main definitions: `SymbolIndex.build`, `SymbolIndex.lookup`, and `IndexCache`, which builds the
index of a project only when its documents have changed. -/

namespace FrancaLint

/-- The declaration of an element. -/
structure SymbolEntry where
  /-- The package and the name of the element. -/
  qualifiedName : String
  /-- The identifier of the file. -/
  file : String
  /-- The package of the file. -/
  package : String
  /-- The name of the element. -/
  name : String
  /-- Collection or interface. -/
  kind : ElementKind
  deriving DecidableEq, Repr, Inhabited

/-- Entries are ordered by qualified name, then file, then kind. -/
def SymbolEntry.notAfter (a b : SymbolEntry) : Bool :=
  if a.qualifiedName ≠ b.qualifiedName then a.qualifiedName ≤ b.qualifiedName
  else if a.file ≠ b.file then a.file ≤ b.file
  else a.kind.keyword ≤ b.kind.keyword

/-- An **index** of declarations. -/
structure SymbolIndex where
  /-- The declarations of named elements, in order. -/
  entries : List SymbolEntry := []
  /-- Every file with its package, ordered by package, then file. -/
  filePackages : List (String × String) := []
  deriving DecidableEq, Repr, Inhabited

/-- The entries of the named elements of a document. -/
def Document.symbols (document : Document) : List SymbolEntry :=
  (document.elements.filter fun element => !element.name.isEmpty).map fun element =>
    { qualifiedName := document.qualifiedName element
      file := Path.normalize document.sourcePath
      package := document.package
      name := element.name
      kind := element.kind }

namespace SymbolIndex

/-- The pairs whose key does not come again. -/
def lastOfEach : List (String × String) → List (String × String)
  | [] => []
  | pair :: rest =>
      if rest.any (·.1 == pair.1) then lastOfEach rest else pair :: lastOfEach rest

/-- Files are ordered by package, then file. -/
def fileNotAfter (a b : String × String) : Bool :=
  if a.2 ≠ b.2 then a.2 ≤ b.2 else a.1 ≤ b.1

/-- The index of some documents. -/
def build (documents : List Document) : SymbolIndex where
  entries := (documents.flatMap Document.symbols).eraseDups.mergeSort SymbolEntry.notAfter
  filePackages :=
    (lastOfEach (documents.map fun d => (Path.normalize d.sourcePath, d.package))).mergeSort
      fileNotAfter

/-- The declarations of a qualified name. -/
def lookup (index : SymbolIndex) (qualifiedName : String) : List SymbolEntry :=
  index.entries.filter (·.qualifiedName == qualifiedName)

/-- The qualified name is declared somewhere. -/
def contains (index : SymbolIndex) (qualifiedName : String) : Bool :=
  index.entries.any (·.qualifiedName == qualifiedName)

/-- The files that declare a name in a package, in order. -/
def filesDeclaring (index : SymbolIndex) (package name : String) : List String :=
  ((index.lookup (qualify package name)).map (·.file)).eraseDups

/-- The qualified names that are declared. -/
def names (index : SymbolIndex) : List String :=
  (index.entries.map (·.qualifiedName)).eraseDups

/-- The packages of the files. -/
def packages (index : SymbolIndex) : List String :=
  (index.filePackages.map (·.2)).eraseDups

/-- The files. -/
def files (index : SymbolIndex) : List String :=
  index.filePackages.map (·.1)

/-- The number of declarations. -/
def size (index : SymbolIndex) : Nat :=
  index.entries.length

/-- A short description of the index. -/
def describe (index : SymbolIndex) : String :=
  "SymbolIndex(" ++ toString index.size ++ " entries)"

end SymbolIndex

/-! ## Caching -/

/-- What two versions of a file are compared by: the digest or, for a document without one, its
serial number. -/
inductive Stamp where
  /-- The digest of the text. -/
  | digest (digest : String)
  /-- The serial number of the document. -/
  | serial (serial : Nat)
  deriving DecidableEq, Repr, Inhabited

/-- The identifier and the version of a document. -/
def Document.stamp (document : Document) : String × Stamp :=
  (Path.normalize document.sourcePath,
    match document.digest with
    | some digest => .digest digest
    | none => .serial document.serial)

/-- The lists have the same members. -/
def sameMembers {α : Type} [DecidableEq α] (a b : List α) : Bool :=
  a.all (· ∈ b) && b.all (· ∈ a)

/-- The latest index of a project, with the documents it was built from. -/
structure IndexCache where
  /-- The identifiers and versions of the documents, and their index. -/
  snapshot : Option (List (String × Stamp) × SymbolIndex) := none
  /-- How often an index has been built. -/
  builds : Nat := 0
  deriving DecidableEq, Repr, Inhabited

namespace IndexCache

/-- Build the index of some documents. -/
def build (cache : IndexCache) (documents : List Document) : SymbolIndex × IndexCache :=
  let index := SymbolIndex.build documents
  (index,
    { snapshot := some (documents.map Document.stamp, index), builds := cache.builds + 1 })

/-- The index of some documents, built anew only if other documents were indexed last. -/
def get (cache : IndexCache) (documents : List Document) : SymbolIndex × IndexCache :=
  match cache.snapshot with
  | none => cache.build documents
  | some (stamps, index) =>
      if sameMembers stamps (documents.map Document.stamp) then (index, cache)
      else cache.build documents

/-- Forget the index. -/
def invalidate (cache : IndexCache) : IndexCache :=
  { cache with snapshot := none }

/-- There is an index. -/
def isBuilt (cache : IndexCache) : Bool :=
  cache.snapshot.isSome

end IndexCache

end FrancaLint
