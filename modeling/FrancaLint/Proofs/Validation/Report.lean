import FrancaLint.Proofs.Closure.Walk
import FrancaLint.Validation

/-! # What a run reports

With a loader that has no effects, a run is a function: it resolves the closure of its root, finds
an index and reports the findings. Only the index comes from outside of the closure.

* `pureChecker`, the checker with such a loader; `run_runIndex`, the index that it uses.
* `report`, what is found for a root, its closure and an index.
* `run_validateDocument_of_enabled` and `run_validateDocument_of_disabled`: the two kinds of run. -/

namespace FrancaLint

open Closure

/-- The checker with a loader that has no effects. -/
def pureChecker (answer : String → LoaderAnswer) (settings : Settings) (limit : Nat) :
    Checker Id where
  loader := Loader.ofFunction answer
  settings := settings
  limit := limit

/-- What is reported for a root with its closure and an index. -/
def report (settings : Settings) (root : Document) (closure : Closure) (index : SymbolIndex) :
    Validation where
  path := Path.normalize root.sourcePath
  document := some root
  closure := some closure
  index := some index
  diagnostics :=
    (findings root closure index (TypeScope.ofDocuments closure.loadedDocuments) settings).map
      (·.collectedWith settings.messageLead)

variable (answer : String → LoaderAnswer) (settings : Settings) (limit : Nat)
  (project : Option (List Document)) (cache : IndexCache)

/-- A run uses the index that the cache has for the project, or else that of the closure. -/
theorem run_runIndex (closure : Closure) :
    ((pureChecker answer settings limit).runIndex project closure cache).run =
      match settings.wholeProject, project with
      | true, some documents => cache.get (projectDocuments documents closure)
      | _, _ => (SymbolIndex.build closure.loadedDocuments, cache) := by
  have hclosure : ((pureChecker answer settings limit).closureIndex closure).run =
      SymbolIndex.build closure.loadedDocuments := by
    unfold Checker.closureIndex
    split <;> rfl
  have hproject : ∀ documents,
      ((pureChecker answer settings limit).projectIndex documents closure cache).run =
        cache.get (projectDocuments documents closure) := by
    intro documents
    unfold Checker.projectIndex
    dsimp only
    split <;> rfl
  have hsettings : (pureChecker answer settings limit).settings = settings := rfl
  unfold Checker.runIndex
  rw [hsettings]
  cases settings.wholeProject with
  | false => exact congrArg (·, cache) hclosure
  | true =>
    cases project with
    | none => exact congrArg (·, cache) hclosure
    | some documents => exact hproject documents

variable (root : Document) (directory : Option String)

/-- A run of an enabled checker reports on the closure of the root and the index that it uses. -/
theorem run_validateDocument_of_enabled (henabled : settings.enabled = true) :
    let closure := (resolve (Loader.ofFunction answer) limit root directory).run
    let indexed := ((pureChecker answer settings limit).runIndex project closure cache).run
    ((pureChecker answer settings limit).validateDocument root directory project cache).run =
      (report settings root closure indexed.1, indexed.2) := by
  intro closure indexed
  have hsettings : (pureChecker answer settings limit).settings = settings := rfl
  unfold Checker.validateDocument
  simp only [hsettings, henabled, Bool.not_true, Bool.false_eq_true, if_false]
  rfl

/-- A run of a checker that is not enabled reports nothing and leaves the cache alone. -/
theorem run_validateDocument_of_disabled (hdisabled : settings.enabled = false) :
    ((pureChecker answer settings limit).validateDocument root directory project cache).run =
      ({ path := Path.normalize root.sourcePath, document := some root }, cache) := by
  have hsettings : (pureChecker answer settings limit).settings = settings := rfl
  unfold Checker.validateDocument
  simp only [hsettings, hdisabled, Bool.not_false, if_true]
  rfl

end FrancaLint
