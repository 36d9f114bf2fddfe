import FrancaLint.Proofs.SymbolIndex.Cache
import FrancaLint.Proofs.Validation.WholeProject

/-! # Runs with a cache

A run asks its cache about one document for each file. So a coherent cache makes no difference to
what a run reports, and the run leaves it coherent.

* `Closure.Filed`, a closure whose documents are known and belong to their files.
* `validateDocument_of_coherent` and `validatePath_of_coherent`: what a run reports and what cache
  it leaves. -/

namespace FrancaLint

open Closure

/-- A closure is **filed** when its documents are known and have the identifiers of their files. -/
def Closure.Filed (known : Document → Prop) (closure : Closure) : Prop :=
  ∀ pair ∈ closure.documents, known pair.2 ∧ pair.2.identifier = pair.1

variable {known : Document → Prop} {project : List Document} {closure : Closure}

/-- The indexed documents of a filed closure and a known project are known. -/
theorem Closure.Filed.known_of_mem_projectDocuments (h : closure.Filed known)
    (hproject : ∀ document ∈ project, known document) {document : Document}
    (hmem : document ∈ projectDocuments project closure) : known document := by
  rcases mem_project_or_loaded hmem with hmem | hmem
  · exact hproject document hmem
  · rw [(loadedDocuments_perm closure).mem_iff] at hmem
    obtain ⟨pair, hpair, rfl⟩ := List.mem_map.mp hmem
    exact (h pair hpair).1

/-- The indexed documents of a project and a filed closure give every file one package. -/
theorem Closure.Filed.onePackage_projectDocuments (h : closure.Filed known) :
    OnePackage (projectDocuments project closure) :=
  onePackage_of_nodup (nodup_projectDocuments_of_identifier project fun hpair => (h _ hpair).2)

section Runs

variable {answer : String → LoaderAnswer} (settings : Settings) (limit : Nat)
variable {cache : IndexCache} (hcache : cache.Coherent known) (htell : VersionsTell known)
  {project : Option (List Document)}
  (hproject : ∀ documents, project = some documents → ∀ document ∈ documents, known document)
include hcache htell hproject

/-- A run with a coherent cache reports what it reports with a new one, and leaves the cache
coherent. -/
theorem validateDocument_of_coherent {root : Document} {directory : Option String}
    (hfiled : (resolve (Loader.ofFunction answer) limit root directory).run.Filed known) :
    let run (cache : IndexCache) :=
      ((pureChecker answer settings limit).validateDocument root directory project cache).run
    (run cache).1 = (run {}).1 ∧ (run cache).2.Coherent known := by
  intro run
  cases henabled : settings.enabled with
  | false =>
    have hrun : ∀ cache, run cache =
        ({ path := Path.normalize root.sourcePath, document := some root }, cache) := fun cache =>
      run_validateDocument_of_disabled answer settings limit project cache root directory henabled
    rw [hrun, hrun]
    exact ⟨rfl, hcache⟩
  | true =>
    simp only [run, run_validateDocument_of_enabled answer settings limit _ _ _ _ henabled,
      run_runIndex]
    cases settings.wholeProject with
    | false => exact ⟨rfl, hcache⟩
    | true =>
      cases project with
      | none => exact ⟨rfl, hcache⟩
      | some documents =>
        -- the cache is asked about known documents of different files
        set closure := (resolve (Loader.ofFunction answer) limit root directory).run
        have hindexed : ∀ document ∈ projectDocuments documents closure, known document :=
          fun _ => hfiled.known_of_mem_projectDocuments (hproject documents rfl)
        have hpackage : OnePackage (projectDocuments documents closure) :=
          hfiled.onePackage_projectDocuments
        refine ⟨?_, hcache.get hindexed hpackage⟩
        have hindex := hcache.get_eq_build htell hindexed hpackage
        exact congrArg (report settings root closure) hindex

/-- A run for a file with a coherent cache reports what it reports with a new one, and leaves the
cache coherent. -/
theorem validatePath_of_coherent (path : String)
    (hfiled : ∀ root, (answer (Path.normalize path)).result (Path.normalize path) = .ok root →
      (resolve (Loader.ofFunction answer) limit root none).run.Filed known) :
    let run (cache : IndexCache) :=
      ((pureChecker answer settings limit).validatePath path project cache).run
    (run cache).1 = (run {}).1 ∧ (run cache).2.Coherent known := by
  intro run
  have hload : ((pureChecker answer settings limit).loader.load (Path.normalize path)).run =
      (answer (Path.normalize path)).result (Path.normalize path) :=
    Closure.run_load_ofFunction _
  simp only [run, Checker.validatePath, Id.run_bind, hload]
  cases hresult : (answer (Path.normalize path)).result (Path.normalize path) with
  | error failure => exact ⟨rfl, hcache⟩
  | ok root =>
    exact validateDocument_of_coherent settings limit hcache htell hproject (hfiled root hresult)

end Runs

end FrancaLint
