import FrancaLint.Rule.ArgumentName
import FrancaLint.Rule.BrokenImport
import FrancaLint.Rule.Collision
import FrancaLint.Rule.DanglingReference
import FrancaLint.Rule.ElementName
import FrancaLint.Rule.EnumLiteral
import FrancaLint.Rule.MapKey
import FrancaLint.Rule.TypeCycle
import FrancaLint.Settings

/-! # Validation

One run for one root document: its closure is resolved, the closure or the whole project is indexed,
and the rules are applied to the root in a fixed order. Findings never stop a run.

Main definitions: `findings`, `Checker.validateDocument`, `Checker.validatePath`. -/

namespace FrancaLint

/-- What a run has produced. -/
structure Validation where
  /-- The identifier of the root. -/
  path : String
  /-- The root, if it could be loaded. -/
  document : Option Document := none
  /-- Its closure, if the checker is enabled. -/
  closure : Option Closure := none
  /-- The index that was used, if the checker is enabled. -/
  index : Option SymbolIndex := none
  /-- The diagnostics, in order. -/
  diagnostics : List Diagnostic := []
  deriving DecidableEq, Repr, Inhabited

namespace Validation

/-- The diagnostics that are errors. -/
def errors (validation : Validation) : List Diagnostic :=
  validation.diagnostics.filter (·.severity == .error)

/-- The diagnostics that are warnings. -/
def warnings (validation : Validation) : List Diagnostic :=
  validation.diagnostics.filter (·.severity == .warning)

end Validation

/-- The findings about the name of an element. -/
def nameFindings (root : Document) (closure : Closure) (index : SymbolIndex)
    (settings : Settings) (element : Element) : List Diagnostic :=
  Rule.elementName root element ++
    if settings.collisionCheck then
      Rule.collisions root element index closure settings.sameNameCheck
    else []

/-- The findings of all rules for a root. -/
def findings (root : Document) (closure : Closure) (index : SymbolIndex) (scope : TypeScope)
    (settings : Settings) : List Diagnostic :=
  Rule.brokenImports root closure ++
  root.elements.flatMap (nameFindings root closure index settings) ++
  Rule.typeCycles root scope ++
  Rule.danglingReferences root scope ++
  Rule.mapKeys root scope ++
  Rule.enumLiterals root ++
  root.interfaces.flatMap (Rule.argumentNames root)

/-- The first of the pairs of each key. -/
def firstOfEach : List (String × Document) → List (String × Document)
  | [] => []
  | pair :: rest => pair :: (firstOfEach rest).filter (·.1 != pair.1)

/-- The documents of a project and of a closure, sorted by identifier. Where both have a document,
that of the project counts. -/
def projectDocuments (project : List Document) (closure : Closure) : List Document :=
  let all := project.map (fun d => (Path.normalize d.sourcePath, d)) ++ closure.documents
  ((firstOfEach all).mergeSort fun a b => a.1 ≤ b.1).map (·.2)

/-- A **checker**: where documents come from, what is checked, and how many files a closure may
have. -/
structure Checker (m : Type → Type) where
  /-- Where documents come from. -/
  loader : Loader m
  /-- What is checked. -/
  settings : Settings := {}
  /-- How many files a closure may have. -/
  limit : Nat := 0x4000000000000000

namespace Checker

variable {m : Type → Type} [Monad m] (checker : Checker m)

/-- Give notice of an index that has been built. -/
def notifyIndexed (documents : List Document) (index : SymbolIndex) : m Unit :=
  checker.loader.notify (.indexed documents.length index.names.length)

/-- The index of a project and a closure, and the cache behind it. -/
def projectIndex (project : List Document) (closure : Closure) (cache : IndexCache) :
    m (SymbolIndex × IndexCache) := do
  let documents := projectDocuments project closure
  let (index, after) := cache.get documents
  if after.builds = cache.builds then
    checker.loader.notify .indexReused
  else
    checker.notifyIndexed documents index
    checker.loader.notify (.indexRebuilt index.size)
  return (index, after)

/-- The index of a closure. -/
def closureIndex (closure : Closure) : m SymbolIndex := do
  let documents := closure.loadedDocuments
  let index := SymbolIndex.build documents
  if checker.settings.wholeProject then
    checker.loader.notify (.closureIndexed closure.root)
  checker.notifyIndexed documents index
  return index

/-- The index that a run uses: that of the project, if the settings ask for it and there is one. -/
def runIndex (project : Option (List Document)) (closure : Closure) (cache : IndexCache) :
    m (SymbolIndex × IndexCache) :=
  match checker.settings.wholeProject, project with
  | true, some documents => checker.projectIndex documents closure cache
  | _, _ => do return (← checker.closureIndex closure, cache)

/-- Validate a document. Its relative imports are relative to the given directory, or else to its
own. The result comes with the cache after the run. -/
def validateDocument (root : Document) (directory : Option String)
    (project : Option (List Document)) (cache : IndexCache) : m (Validation × IndexCache) := do
  let path := Path.normalize root.sourcePath
  if !checker.settings.enabled then return ({ path := path, document := some root }, cache)
  let closure ← Closure.resolve checker.loader checker.limit root directory
  let (index, cache) ← checker.runIndex project closure cache
  let scope := TypeScope.ofDocuments closure.loadedDocuments
  let found := findings root closure index scope checker.settings
  let collected := ({ leading := checker.settings.messageLead } : Collector).extend found
  checker.loader.notify (.validated path collected.size)
  return ({
    path := path, document := some root, closure := some closure, index := some index,
    diagnostics := collected.diagnostics }, cache)

/-- The finding for a root that could not be loaded. -/
def unloadable (path reason : String) : Diagnostic :=
  .about .error ("File could not be loaded: " ++ reason) { document := path } (Span.ofFile path)

/-- Load and validate a file; a failure to load it is the only finding then. -/
def validatePath (path : String) (project : Option (List Document)) (cache : IndexCache) :
    m (Validation × IndexCache) := do
  let identifier := Path.normalize path
  match ← checker.loader.load identifier with
  | .error failure =>
      let collected := ({ leading := checker.settings.messageLead } : Collector).extend
        [unloadable identifier failure.reason]
      return ({ path := identifier, diagnostics := collected.diagnostics }, cache)
  | .ok document => checker.validateDocument document none project cache

end Checker

end FrancaLint
