import FrancaLint.Proofs.Closure.Requests
import FrancaLint.Proofs.Loader.Keeps
import FrancaLint.Proofs.SymbolIndex.Cache
import FrancaLint.Proofs.Validation.WholeProject

/-! # One index for all runs of a project

Runs that share a project and a cache may read copies of the files of the project. The document of
the project counts then, so a closure that stays within the project adds nothing to what is indexed:
the cache is asked about the same documents by every run, and only the first run builds an index.

* `oneForEachFile`, what is indexed of a project alone; `projectDocuments_of_within`: a closure
  within the project adds nothing to it. `Closure.keeps_resolve_within` for loaders that know no
  other files.
* `ProjectRun.validateAll`, runs one after another with one project and one cache, whatever their
  loaders answer.
* `keeps_validateDocument`, what one run asks its cache; `keeps_validateAll`, what all runs do;
  `project_is_indexed_once` for a new cache. -/

namespace FrancaLint

open Closure

/-! ## Files that the project has -/

/-- A closure stays **within** a project when the project has a document of each of its files. -/
def Closure.Within (project : List Document) (closure : Closure) : Prop :=
  ∀ path ∈ closure.documents.map Prod.fst, ∃ document ∈ project, document.identifier = path

/-- The first document of a project for each file, sorted by identifier. -/
def oneForEachFile (project : List Document) : List Document :=
  ((firstOfEach (project.map fun d => (d.identifier, d))).mergeSort fun a b => a.1 ≤ b.1).map (·.2)

/-- Of two lists in a row, the first pairs of their keys are those of the first list and those of
the second one whose keys are new. -/
theorem firstOfEach_append (pairs others : List (String × Document)) :
    firstOfEach (pairs ++ others) =
      firstOfEach pairs ++ (firstOfEach others).filter fun other =>
        !(pairs.any fun pair => pair.1 == other.1) := by
  induction pairs with
  | nil => simp [firstOfEach]
  | cons pair rest ih =>
    rw [List.cons_append, firstOfEach, firstOfEach, ih, List.filter_append, List.filter_filter,
      List.cons_append]
    congr 2
    refine List.filter_congr fun other _ => ?_
    rw [List.any_cons, Bool.not_or, bne, BEq.comm]

/-- Pairs whose keys are all there already add nothing. -/
theorem firstOfEach_append_of_keys {pairs others : List (String × Document)}
    (h : ∀ key ∈ others.map Prod.fst, key ∈ pairs.map Prod.fst) :
    firstOfEach (pairs ++ others) = firstOfEach pairs := by
  rw [firstOfEach_append, List.append_right_eq_self, List.filter_eq_nil_iff]
  intro other hother
  obtain ⟨pair, hpair, hkey⟩ :=
    List.mem_map.mp (h other.1 (List.mem_map_of_mem (mem_of_mem_firstOfEach hother)))
  simpa using ⟨pair.2, hkey ▸ hpair⟩

/-- A closure within a project adds nothing to what is indexed. -/
theorem projectDocuments_of_within {project : List Document} {closure : Closure}
    (h : closure.Within project) : projectDocuments project closure = oneForEachFile project := by
  have hkeys : ∀ key ∈ closure.documents.map Prod.fst,
      key ∈ (project.map fun d => (d.identifier, d)).map Prod.fst := by
    intro key hkey
    obtain ⟨document, hdocument, rfl⟩ := h key hkey
    exact List.mem_map.mpr ⟨_, List.mem_map_of_mem hdocument, rfl⟩
  have hfirst : firstOfEach (identified project closure) =
      firstOfEach (project.map fun d => (d.identifier, d)) := firstOfEach_append_of_keys hkeys
  rw [oneForEachFile, ← hfirst]
  rfl

/-- The closure of a root of the project stays within the project if the loader has documents only
of files of the project. -/
theorem Closure.keeps_resolve_within {σ : Type} {loader : Loader (StateM σ)} {root : Document}
    {project : List Document} (hroot : ∃ document ∈ project, document.identifier = root.identifier)
    (hloader : ∀ path answer served, loader.Gives path answer →
      answer.result path = .ok served → ∃ document ∈ project, document.identifier = path)
    (limit : Nat) (directory : Option String) :
    Keeps (fun _ => True) (resolve loader limit root directory) (Within project) := by
  refine fun state _ => ⟨?_, trivial⟩
  let ended := ((visitPending loader.noted limit (start root directory)).run (state, [])).run
  obtain ⟨_, hfollows, -⟩ : ∃ total, Walk.Follows loader root directory ended.2.2 total ended.1 [] ∧
      (ended.1.pending = [] ∨ total = 0 + limit) := (follows_start loader root directory).visitPending
  intro path hpath
  rw [show ((resolve loader limit root directory).run state).1 = _ from
    (notes_resolve loader limit root directory state []).1.symm] at hpath
  obtain ⟨⟨path, served⟩, hfile, rfl⟩ := List.mem_map.mp hpath
  rcases (hfollows.mem_documents path served).mp hfile with ⟨rfl, -⟩ | ⟨answer, hasked, hok⟩
  · exact hroot
  · exact hloader path answer served (hfollows.of_asked path answer hasked) hok

/-! ## Runs one after another -/

/-- A **run** of some checker for a root, whose loader may have a state. -/
structure ProjectRun (σ : Type) where
  /-- The loader, the settings and the limit. -/
  checker : Checker (StateM σ)
  /-- The root. -/
  root : Document
  /-- The directory that the imports of the root are relative to, if it is not that of the root. -/
  directory : Option String

/-- The run **indexes** its project: the checker is enabled and checks the whole project. -/
def ProjectRun.Indexes {σ : Type} (run : ProjectRun σ) : Prop :=
  run.checker.settings.enabled = true ∧ run.checker.settings.wholeProject = true

/-- Run one after another with the documents of a project, each with the cache that the run before
has left. Every result comes with the cache after its run. -/
def ProjectRun.validateAll {σ : Type} (project : List Document) :
    List (ProjectRun σ) → IndexCache → StateM σ (List (Validation × IndexCache))
  | [], _ => return []
  | run :: later, cache => do
      let outcome ← run.checker.validateDocument run.root run.directory (some project) cache
      let outcomes ← validateAll project later outcome.2
      return outcome :: outcomes

variable {σ : Type} {project : List Document} {cache : IndexCache}

/-- The closure of the root of a run. -/
def ProjectRun.resolve (run : ProjectRun σ) : StateM σ Closure :=
  Closure.resolve run.checker.loader run.checker.limit run.root run.directory

/-- A run that indexes its project uses what the cache answers for the documents of the project and
of its closure, whatever its loader answers. -/
theorem keeps_validateDocument {run : ProjectRun σ} (h : run.Indexes) {holds : Closure → Prop}
    (hresolve : Keeps (fun _ => True) run.resolve holds) :
    Keeps (fun _ => True)
      (run.checker.validateDocument run.root run.directory (some project) cache)
      fun outcome => ∃ closure, holds closure ∧ outcome.1.closure = some closure ∧
        outcome.1.index = some (cache.get (projectDocuments project closure)).1 ∧
        outcome.2 = (cache.get (projectDocuments project closure)).2 := by
  obtain ⟨henabled, hwhole⟩ := h
  have hindex : ∀ closure, Keeps (fun _ => True)
      (run.checker.runIndex (some project) closure cache)
      (· = cache.get (projectDocuments project closure)) := by
    intro closure
    unfold Checker.runIndex
    rw [hwhole]
    dsimp only
    -- the notices of the two ways to an index make no difference
    unfold Checker.projectIndex
    dsimp only
    split
    · exact (Keeps.any _).bind fun _ _ => .pure rfl
    · exact (Keeps.any _).bind fun _ _ => (Keeps.any _).bind fun _ _ => .pure rfl
  unfold Checker.validateDocument
  simp only [henabled, Bool.not_true, Bool.false_eq_true, if_false]
  refine hresolve.bind fun closure hclosure => (hindex closure).bind ?_
  rintro _ rfl
  exact (Keeps.any _).bind fun _ _ => .pure ⟨closure, hclosure, rfl, rfl, rfl⟩

namespace IndexCache

/-- A cache that has built an index answers the same documents with it and stays as it is. -/
theorem get_build (cache : IndexCache) (documents : List Document) :
    (cache.build documents).2.get documents = cache.build documents := by
  have hsame : sameMembers (documents.map Document.stamp) (documents.map Document.stamp) = true :=
    sameMembers_iff.mpr rfl
  simp only [get, build, hsame, if_true]

end IndexCache

/-- Every run has a result. -/
theorem keeps_length_validateAll (project : List Document) (runs : List (ProjectRun σ))
    (cache : IndexCache) :
    Keeps (fun _ => True) (ProjectRun.validateAll project runs cache)
      (List.length · = runs.length) := by
  induction runs generalizing cache with
  | nil => exact .pure rfl
  | cons run later ih =>
    exact (Keeps.any _).bind fun outcome _ => (ih _).bind fun outcomes hlength =>
      .pure (congrArg (· + 1) hlength)

/-- Runs that stay within their project all use the index of its documents and leave the cache that
has built it, if the first of them finds such a cache or makes its cache build that index. -/
theorem keeps_validateAll {before : IndexCache} {runs : List (ProjectRun σ)}
    (hindexes : ∀ run ∈ runs, run.Indexes)
    (hcache : cache.get (oneForEachFile project) = before.build (oneForEachFile project)) :
    Keeps (fun _ => True) (ProjectRun.validateAll project runs cache) fun outcomes =>
      (∀ outcome ∈ outcomes, ∀ closure, outcome.1.closure = some closure →
        closure.Within project) →
      ∀ outcome ∈ outcomes,
        outcome.1.index = some (SymbolIndex.build (oneForEachFile project)) ∧
          outcome.2 = (before.build (oneForEachFile project)).2 := by
  induction runs generalizing cache with
  | nil => exact .pure fun _ _ hmem => absurd hmem List.not_mem_nil
  | cons run later ih =>
    obtain ⟨hrun, hlater⟩ := List.forall_mem_cons.mp hindexes
    refine (keeps_validateDocument hrun (Keeps.any _)).bind ?_
    rintro ⟨validation, next⟩ ⟨closure, -, hclosure, hindex, hnext⟩
    by_cases hwithin : closure.Within project
    · -- the cache was asked about the documents of the project alone, so it has their index now
      rw [projectDocuments_of_within hwithin, hcache] at hindex hnext
      have hagain : next.get (oneForEachFile project) = before.build (oneForEachFile project) := by
        rw [show next = _ from hnext, IndexCache.get_build]
      refine (ih hlater hagain).bind fun outcomes houtcomes => .pure fun hall => ?_
      obtain ⟨-, hrest⟩ := List.forall_mem_cons.mp hall
      exact List.forall_mem_cons.mpr ⟨⟨hindex, hnext⟩, houtcomes hrest⟩
    · refine (Keeps.any _).bind fun outcomes _ => .pure fun hall => ?_
      exact absurd ((List.forall_mem_cons.mp hall).1 closure hclosure) hwithin

/-- Runs whose closures stay within a project report such closures. -/
theorem keeps_within_validateAll {runs : List (ProjectRun σ)}
    (hindexes : ∀ run ∈ runs, run.Indexes)
    (hresolve : ∀ run ∈ runs, Keeps (fun _ => True) run.resolve (Within project)) :
    Keeps (fun _ => True) (ProjectRun.validateAll project runs cache) fun outcomes =>
      ∀ outcome ∈ outcomes, ∀ closure, outcome.1.closure = some closure →
        closure.Within project := by
  induction runs generalizing cache with
  | nil => exact .pure fun _ hmem => absurd hmem List.not_mem_nil
  | cons run later ih =>
    obtain ⟨hrun, hlater⟩ := List.forall_mem_cons.mp hindexes
    obtain ⟨hfirst, hrest⟩ := List.forall_mem_cons.mp hresolve
    refine (keeps_validateDocument hrun hfirst).bind ?_
    rintro ⟨validation, next⟩ ⟨closure, hwithin, hclosure, -, -⟩
    refine (ih hlater hrest).bind fun outcomes houtcomes => .pure ?_
    refine List.forall_mem_cons.mpr ⟨fun other hother => ?_, houtcomes⟩
    rw [hclosure] at hother
    exact Option.some.inj hother ▸ hwithin

/-- **A project is indexed once.** Runs for some roots follow one another with one project and a new
cache; each indexes the project, with a loader of its own that may answer anything, also copies of
the files of the project. If the closure of every run stays within the project, then the first run
builds the index of the first documents that the project has for its files, and every later run uses
that index and leaves the cache as it is. -/
theorem project_is_indexed_once (project : List Document) (first : ProjectRun σ)
    (later : List (ProjectRun σ)) (state : σ) (hindexes : ∀ run ∈ first :: later, run.Indexes)
    (hwithin : ∀ outcome ∈ ((ProjectRun.validateAll project (first :: later) {}).run state).run.1,
      ∀ closure, outcome.1.closure = some closure → closure.Within project) :
    ∃ validation cache outcomes,
      ((ProjectRun.validateAll project (first :: later) {}).run state).run.1 =
        (validation, cache) :: outcomes ∧
      outcomes.length = later.length ∧
      validation.index = some (SymbolIndex.build (oneForEachFile project)) ∧ cache.builds = 1 ∧
      ∀ outcome ∈ outcomes, outcome.1.index = validation.index ∧ outcome.2 = cache := by
  have hnew : ({} : IndexCache).get (oneForEachFile project) =
      ({} : IndexCache).build (oneForEachFile project) := rfl
  have hlength := (keeps_length_validateAll project (first :: later) {}).value state
  have hall := (keeps_validateAll hindexes hnew).value state hwithin
  obtain ⟨⟨validation, cache⟩, outcomes, heq⟩ := List.exists_cons_of_length_eq_add_one hlength
  rw [heq] at hlength hall
  obtain ⟨⟨hindex, hcache⟩, hrest⟩ := List.forall_mem_cons.mp hall
  have hcache : cache = (({} : IndexCache).build (oneForEachFile project)).2 := hcache
  refine ⟨validation, cache, outcomes, heq, Nat.succ.inj hlength, hindex, ?_, ?_⟩
  · rw [hcache]
    rfl
  · intro outcome houtcome
    obtain ⟨hsame, hkept⟩ := hrest outcome houtcome
    exact ⟨hsame.trans hindex.symm, hkept.trans hcache.symm⟩

/-! ## Two files that import each other -/

/-- One of two files that import each other. -/
def twin (name other : String) (serial : Nat) : Document :=
  { package := name, sourcePath := "/p//" ++ name ++ ".fidl",
    imports := [{ uri := other ++ ".fidl" }], interfaces := [{ name := "I" }], serial := serial }

/-- The files, and a second version of one of them. -/
def twins : List Document :=
  [twin "b" "a" 1, twin "a" "b" 2, twin "b" "c" 3]

/-- A loader that has these files only and reads a new copy each time. -/
def copyingLoader : Loader (StateM Nat) where
  ask path := do
    let serial ← getModify (· + 1)
    return if path = "/p/a.fidl" then .document (twin "a" "b" serial)
      else if path = "/p/b.fidl" then .document (twin "b" "a" serial)
      else .nothing
  notify _ := pure ()

/-- A run for one of the files. -/
def twinRun (root : Document) : ProjectRun Nat where
  checker := { loader := copyingLoader, settings := { wholeProject := true }, limit := 3 }
  root := root
  directory := none

/-- A run for one of the files stays within the project. -/
theorem keeps_resolve_twinRun {root : Document}
    (hroot : ∃ document ∈ twins, document.identifier = root.identifier) :
    Keeps (fun _ => True) (twinRun root).resolve (Within twins) := by
  have hfiles : ∀ path ∈ ["/p/a.fidl", "/p/b.fidl"],
      ∃ document ∈ twins, document.identifier = path := by
    decide +kernel
  refine keeps_resolve_within hroot ?_ 3 none
  rintro path _ served ⟨state, rfl⟩ hok
  by_cases ha : path = "/p/a.fidl"
  · exact hfiles path (by simp [ha])
  · by_cases hb : path = "/p/b.fidl"
    · exact hfiles path (by simp [hb])
    · simp [twinRun, copyingLoader, ha, hb, LoaderAnswer.result] at hok

/-- Runs for both files and for a copy, which import copies, use one index. -/
theorem indexed_once_twins :
    let first := twinRun (twin "a" "b" 2)
    let later := [twinRun (twin "b" "a" 1), twinRun (twin "b" "a" 9)]
    let outcomes := ((ProjectRun.validateAll twins (first :: later) {}).run 10).run.1
    (∀ run ∈ first :: later, run.Indexes) ∧
    (∀ outcome ∈ outcomes, ∀ closure, outcome.1.closure = some closure → closure.Within twins) ∧
    ((first.resolve.run 10).run.1.documents.map fun file => (file.1, file.2.serial)) =
      [("/p/a.fidl", 2), ("/p/b.fidl", 10)] ∧
    ∃ validation cache rest, outcomes = (validation, cache) :: rest ∧ rest.length = 2 ∧
      cache.builds = 1 ∧ ∀ outcome ∈ rest, outcome.1.index = validation.index ∧
        outcome.2 = cache := by
  intro first later outcomes
  have hindexes : ∀ run ∈ first :: later, run.Indexes := by
    simp [first, later, ProjectRun.Indexes, twinRun]
  have hresolve : ∀ run ∈ first :: later, Keeps (fun _ => True) run.resolve (Within twins) := by
    have hroots : ∀ root ∈ [twin "a" "b" 2, twin "b" "a" 1, twin "b" "a" 9],
        ∃ document ∈ twins, document.identifier = root.identifier := by
      decide +kernel
    intro run hrun
    obtain ⟨root, hroot, rfl⟩ : ∃ root ∈ [twin "a" "b" 2, twin "b" "a" 1, twin "b" "a" 9],
        twinRun root = run := List.mem_map.mp hrun
    exact keeps_resolve_twinRun (hroots root hroot)
  have hwithin : ∀ outcome ∈ outcomes, ∀ closure, outcome.1.closure = some closure →
      closure.Within twins :=
    (keeps_within_validateAll hindexes hresolve).value 10
  obtain ⟨validation, cache, rest, heq, hlength, -, hbuilds, hrest⟩ :=
    project_is_indexed_once twins first later 10 hindexes hwithin
  exact ⟨hindexes, hwithin, by decide +kernel, validation, cache, rest, heq, hlength, hbuilds,
    hrest⟩

end FrancaLint
