import FrancaLint.Proofs.Closure.ImportGraph
import FrancaLint.Proofs.SymbolIndex.Order
import FrancaLint.Proofs.Validation.Extension
import FrancaLint.Proofs.Validation.Report

/-! # Validation of a whole project

A run that indexes the whole project instead of the closure finds all that the other run finds, in
the same order, and between it only warnings about files that the root does not import.

* `ImportGraph.identifier_of_mem_documents`, `mem_projectDocuments_of_loaded`: the documents of a
  closure are among the indexed documents of the project.
* `OutsideWarning`, the further diagnostics; `collisions_extendedBy` for the collisions of one
  element and `whole_project_adds_warnings` for a run. -/

namespace FrancaLint

open Closure

/-! ## The documents that are indexed -/

/-- The first pairs of their keys have different keys. -/
theorem nodup_firstOfEach (pairs : List (String × Document)) :
    ((firstOfEach pairs).map Prod.fst).Nodup := by
  induction pairs with
  | nil => exact List.nodup_nil
  | cons pair rest ih =>
    rw [firstOfEach, List.map_cons, List.nodup_cons]
    constructor
    · intro hmem
      obtain ⟨other, hother, heq⟩ := List.mem_map.mp hmem
      have hne := (List.mem_filter.mp hother).2
      rw [heq] at hne
      simp at hne
    · exact ih.sublist (List.filter_sublist.map Prod.fst)

/-- The first pairs are some of the pairs. -/
theorem mem_of_mem_firstOfEach {pairs : List (String × Document)} {pair : String × Document}
    (h : pair ∈ firstOfEach pairs) : pair ∈ pairs := by
  induction pairs with
  | nil => exact h
  | cons first rest ih =>
    rw [firstOfEach, List.mem_cons] at h
    rcases h with rfl | h
    · exact List.mem_cons_self
    · exact List.mem_cons_of_mem _ (ih (List.mem_filter.mp h).1)

/-- Every key has a first pair. -/
theorem exists_mem_firstOfEach {pairs : List (String × Document)} {pair : String × Document}
    (h : pair ∈ pairs) : ∃ document, (pair.1, document) ∈ firstOfEach pairs := by
  induction pairs with
  | nil => exact absurd h List.not_mem_nil
  | cons first rest ih =>
    rw [firstOfEach]
    by_cases hkey : pair.1 = first.1
    · exact ⟨first.2, by rw [hkey]; exact List.mem_cons_self⟩
    · have hrest : pair ∈ rest := by
        refine (List.mem_cons.mp h).resolve_left fun heq => hkey ?_
        rw [heq]
      obtain ⟨document, hdocument⟩ := ih hrest
      refine ⟨document, List.mem_cons_of_mem _ (List.mem_filter.mpr ⟨hdocument, ?_⟩)⟩
      simpa using hkey

/-- The files with the documents that a project and a closure have for them. -/
def identified (project : List Document) (closure : Closure) : List (String × Document) :=
  project.map (fun d => (d.identifier, d)) ++ closure.documents

/-- The indexed documents of a project are the first ones of each file, in another order. -/
theorem projectDocuments_perm (project : List Document) (closure : Closure) :
    (projectDocuments project closure).Perm
      ((firstOfEach (identified project closure)).map Prod.snd) :=
  (List.mergeSort_perm _ _).map Prod.snd

/-- Where the documents of a closure are paired with their files, so are those of a project and the
closure. -/
theorem identifier_of_mem_identified {project : List Document} {closure : Closure}
    (h : ∀ {path document}, (path, document) ∈ closure.documents → document.identifier = path)
    {pair : String × Document} (hmem : pair ∈ identified project closure) :
    pair.2.identifier = pair.1 := by
  rcases List.mem_append.mp hmem with hmem | hmem
  · obtain ⟨document, -, rfl⟩ := List.mem_map.mp hmem
    rfl
  · exact h hmem

/-- Where the documents of a closure are paired with their files, the indexed documents of a project
belong to different files. -/
theorem nodup_projectDocuments_of_identifier (project : List Document) {closure : Closure}
    (h : ∀ {path document}, (path, document) ∈ closure.documents → document.identifier = path) :
    ((projectDocuments project closure).map Document.identifier).Nodup := by
  have hkeys : (firstOfEach (identified project closure)).map (Document.identifier ∘ Prod.snd) =
      (firstOfEach (identified project closure)).map Prod.fst :=
    List.map_congr_left fun pair hpair =>
      identifier_of_mem_identified h (mem_of_mem_firstOfEach hpair)
  rw [((projectDocuments_perm project closure).map _).nodup_iff, List.map_map, hkeys]
  exact nodup_firstOfEach _

/-- The documents of a closure are the loaded ones, in another order. -/
theorem loadedDocuments_perm (closure : Closure) :
    closure.loadedDocuments.Perm (closure.documents.map Prod.snd) :=
  (List.mergeSort_perm _ _).map Prod.snd

section Documents

variable {answer : String → LoaderAnswer} {root : Document} {directory : Option String}
variable {closure : Closure} {project : List Document}

/-- Every loaded document has the identifier of its file. -/
theorem Closure.ImportGraph.identifier_of_mem_documents
    (h : ImportGraph answer root directory closure)
    (hloader : ∀ path document, (answer path).result path = .ok document →
      document.identifier = path)
    {path : String} {document : Document} (hmem : (path, document) ∈ closure.documents) :
    document.identifier = path := by
  have hdocument := ((h.mem_documents path document).mp hmem).2
  rw [fileDocument?_eq_some_iff] at hdocument
  rcases hdocument with ⟨rfl, rfl⟩ | ⟨-, hok⟩
  · rfl
  · exact hloader path document hok

/-- The documents of a closure belong to different files. -/
theorem Closure.ImportGraph.nodup_loadedDocuments
    (h : ImportGraph answer root directory closure)
    (hloader : ∀ path document, (answer path).result path = .ok document →
      document.identifier = path) :
    (closure.loadedDocuments.map Document.identifier).Nodup := by
  have hkeys : closure.documents.map (Document.identifier ∘ Prod.snd) =
      closure.documents.map Prod.fst :=
    List.map_congr_left fun pair hpair => h.identifier_of_mem_documents hloader hpair
  rw [((loadedDocuments_perm closure).map _).nodup_iff, List.map_map, hkeys]
  exact h.documents_nodup

variable (h : ImportGraph answer root directory closure)
variable (hloader : ∀ path document, (answer path).result path = .ok document →
  document.identifier = path)
variable (hproject : ∀ document ∈ project,
  (answer document.identifier).result document.identifier = .ok document)

variable (project) in
include h hloader in
/-- The indexed documents of a project belong to different files. -/
theorem nodup_projectDocuments :
    ((projectDocuments project closure).map Document.identifier).Nodup :=
  nodup_projectDocuments_of_identifier project (h.identifier_of_mem_documents hloader)

/-- An indexed document of a project belongs to the project or the closure. -/
theorem mem_project_or_loaded {document : Document}
    (hmem : document ∈ projectDocuments project closure) :
    document ∈ project ∨ document ∈ closure.loadedDocuments := by
  rw [(projectDocuments_perm project closure).mem_iff] at hmem
  obtain ⟨pair, hpair, rfl⟩ := List.mem_map.mp hmem
  rcases List.mem_append.mp (mem_of_mem_firstOfEach hpair) with hpair | hpair
  · obtain ⟨document, hdocument, rfl⟩ := List.mem_map.mp hpair
    exact Or.inl hdocument
  · rw [(loadedDocuments_perm closure).mem_iff]
    exact Or.inr (List.mem_map.mpr ⟨pair, hpair, rfl⟩)

include h hloader hproject in
/-- The documents of a closure, apart from its root, are indexed with the project. -/
theorem mem_projectDocuments_of_loaded {document : Document}
    (hmem : document ∈ closure.loadedDocuments) (hroot : document.identifier ≠ root.identifier) :
    document ∈ projectDocuments project closure := by
  rw [(loadedDocuments_perm closure).mem_iff] at hmem
  obtain ⟨⟨path, document⟩, hpair, rfl⟩ := List.mem_map.mp hmem
  have hpath := h.identifier_of_mem_documents hloader hpair
  obtain ⟨first, hfirst⟩ :=
    exists_mem_firstOfEach (List.mem_append_right (project.map fun d => (d.identifier, d)) hpair)
  -- whichever document comes first, the loader answers it for the same file
  have heq : first = document := by
    rcases List.mem_append.mp (mem_of_mem_firstOfEach hfirst) with hmem | hmem
    · obtain ⟨other, hother, heq⟩ := List.mem_map.mp hmem
      rw [Prod.mk.injEq] at heq
      obtain ⟨hother', rfl⟩ := heq
      have hok := hproject other hother
      rw [hother'] at hok
      have hdocument := ((h.mem_documents path document).mp hpair).2
      rw [fileDocument?_of_ok (fun heq => hroot (hpath.trans heq)) hok] at hdocument
      exact Option.some.inj hdocument
    · exact List.inj_on_of_nodup_map h.documents_nodup hmem hpair rfl |> congrArg Prod.snd
  rw [(projectDocuments_perm project closure).mem_iff]
  exact List.mem_map.mpr ⟨(path, first), hfirst, heq⟩

include h hproject in
/-- What the project has and the closure has not is not imported: it would have been loaded. -/
theorem not_reachable_of_not_loaded {document : Document} (hmem : document ∈ project)
    (hnot : document.identifier ∉ closure.documents.map Prod.fst) :
    ¬ Reachable answer root directory document.identifier := by
  intro hreach
  -- the loader has a document for every file of the project
  refine hnot (h.mem_keys_iff.mpr ⟨hreach, ?_⟩)
  by_cases hroot : document.identifier = root.identifier
  · exact ⟨root, by rw [hroot]; exact fileDocument?_root⟩
  · exact ⟨document, fileDocument?_of_ok hroot (hproject document hmem)⟩

/-! ## Collisions -/

/-- A warning about an element of the root and an indexed file that does not belong to the
closure. -/
def OutsideWarning (root : Document) (closure : Closure) (index : SymbolIndex)
    (element : Element) (found : Diagnostic) : Prop :=
  found.severity = .warning ∧ ∃ file ∈ index.files,
    file ∉ closure.documents.map Prod.fst ∧ file ∉ closure.failed.map Prod.fst ∧
      ((∃ package, found = Rule.packageCollision root element false file package) ∨
        found = Rule.nameCollision root element false file)

include h hloader hproject in
/-- The file of an indexed document that does not belong to the closure is not imported. -/
theorem not_imported_of_indexed {document : Document}
    (hmem : document ∈ projectDocuments project closure)
    (hnot : document ∉ closure.loadedDocuments)
    (hroot : document.identifier ≠ root.identifier) :
    document.identifier ∈ (SymbolIndex.build (projectDocuments project closure)).files ∧
      document.identifier ∉ closure.documents.map Prod.fst ∧
      document.identifier ∉ closure.failed.map Prod.fst ∧
      closure.transitiveImports.contains document.identifier = false := by
  have hdocument := (mem_project_or_loaded hmem).resolve_right hnot
  have hkey : document.identifier ∉ closure.documents.map Prod.fst := by
    -- otherwise the closure would have loaded the same document
    intro hkey
    obtain ⟨⟨path, other⟩, hpair, hpath⟩ := List.mem_map.mp hkey
    have hother := ((h.mem_documents path other).mp hpair).2
    rw [show path = document.identifier from hpath,
      fileDocument?_of_ok hroot (hproject document hdocument), Option.some.injEq] at hother
    refine hnot ((loadedDocuments_perm closure).mem_iff.mpr ?_)
    exact List.mem_map.mpr ⟨(path, other), hpair, hother.symm⟩
  have hreach := not_reachable_of_not_loaded h hproject hdocument hkey
  refine ⟨?_, hkey, fun hfailed => hreach (h.mem_failed_keys_iff.mp hfailed).1, ?_⟩
  · rw [SymbolIndex.mem_files_iff (nodup_projectDocuments project h hloader)]
    exact ⟨document, hmem, rfl⟩
  · rw [List.contains_eq_mem, decide_eq_false_iff_not]
    exact fun himported => hreach (h.reachable_iff_transitive.mpr (Or.inr himported))

include h hloader hproject in
/-- The project adds warnings to the collisions with packages. -/
theorem packageCollisions_extendedBy (element : Element) :
    ExtendedBy (OutsideWarning root closure (.build (projectDocuments project closure)) element)
      (Rule.packageCollisions root element (.build closure.loadedDocuments)
        closure.transitiveImports)
      (Rule.packageCollisions root element (.build (projectDocuments project closure))
        closure.transitiveImports) := by
  have hloaded := h.nodup_loadedDocuments hloader
  have hall := nodup_projectDocuments project h hloader
  set keep : String × String → Bool := fun pair => pair.1 != root.identifier &&
    Rule.isNestedPackage pair.2 (root.qualifiedName element)
  have hkeep : ∀ pair, keep pair = true → pair.1 ≠ root.identifier := by
    intro pair hpair
    simpa using (Bool.and_eq_true_iff.mp hpair).1
  have hpart := SymbolIndex.filePackages_sublist hloaded hall
    (fun document => mem_projectDocuments_of_loaded h hloader hproject) keep hkeep
  -- a pair that only the project has comes from a document outside of the closure
  have hfurther : ExtendedBy (fun pair : String × String =>
      ∃ document ∈ projectDocuments project closure, document ∉ closure.loadedDocuments ∧
        document.identifier ≠ root.identifier ∧ (document.identifier, document.package) = pair)
      ((SymbolIndex.build closure.loadedDocuments).filePackages.filter keep)
      ((SymbolIndex.build (projectDocuments project closure)).filePackages.filter keep) := by
    refine .of_sublist hpart ((SymbolIndex.nodup_filePackages hall).filter _) ?_
    rintro ⟨file, package⟩ hmem hnot
    obtain ⟨hmem, hkept⟩ := List.mem_filter.mp hmem
    obtain ⟨document, hdocument, rfl, rfl⟩ := (SymbolIndex.mem_filePackages_iff hall).mp hmem
    refine ⟨document, hdocument, fun hin => hnot ?_, hkeep _ hkept, rfl⟩
    rw [List.mem_filter, SymbolIndex.mem_filePackages_iff hloaded]
    exact ⟨⟨document, hin, rfl, rfl⟩, hkept⟩
  refine hfurther.map _ ?_
  rintro _ ⟨document, hdocument, hnot, hroot, rfl⟩
  obtain ⟨hindexed, hkey, hfailed, himported⟩ :=
    not_imported_of_indexed h hloader hproject hdocument hnot hroot
  show OutsideWarning _ _ _ _ (Rule.packageCollision _ _ _ _ _)
  rw [himported]
  exact ⟨rfl, document.identifier, hindexed, hkey, hfailed, Or.inl ⟨document.package, rfl⟩⟩

include h hloader hproject in
/-- The project adds warnings to the collisions with declarations. -/
theorem nameCollisions_extendedBy (element : Element) :
    ExtendedBy (OutsideWarning root closure (.build (projectDocuments project closure)) element)
      (Rule.nameCollisions root element (.build closure.loadedDocuments)
        closure.transitiveImports)
      (Rule.nameCollisions root element (.build (projectDocuments project closure))
        closure.transitiveImports) := by
  have hpart := SymbolIndex.filesDeclaring_sublist
    (fun document => mem_projectDocuments_of_loaded h hloader hproject) root.package element.name
  have hnodup := ((SymbolIndex.pairwise_filesDeclaring (projectDocuments project closure)
    root.package element.name).filter (· != root.identifier)).nodup
  -- a file that only the project has declaring the name comes from outside of the closure
  have hfurther : ExtendedBy (fun file : String =>
      ∃ document ∈ projectDocuments project closure, document ∉ closure.loadedDocuments ∧
        document.identifier ≠ root.identifier ∧ document.identifier = file)
      (((SymbolIndex.build closure.loadedDocuments).filesDeclaring root.package
        element.name).filter (· != root.identifier))
      (((SymbolIndex.build (projectDocuments project closure)).filesDeclaring root.package
        element.name).filter (· != root.identifier)) := by
    refine .of_sublist hpart hnodup ?_
    intro file hmem hnot
    obtain ⟨hmem, hkept⟩ := List.mem_filter.mp hmem
    obtain ⟨document, hdocument, rfl, hdeclares⟩ := SymbolIndex.mem_filesDeclaring_iff.mp hmem
    refine ⟨document, hdocument, fun hin => hnot ?_, by simpa using hkept, rfl⟩
    rw [List.mem_filter, SymbolIndex.mem_filesDeclaring_iff]
    exact ⟨⟨document, hin, rfl, hdeclares⟩, hkept⟩
  refine hfurther.map _ ?_
  rintro _ ⟨document, hdocument, hnot, hroot, rfl⟩
  obtain ⟨hindexed, hkey, hfailed, himported⟩ :=
    not_imported_of_indexed h hloader hproject hdocument hnot hroot
  show OutsideWarning _ _ _ _ (Rule.nameCollision _ _ _ _)
  rw [himported]
  exact ⟨rfl, document.identifier, hindexed, hkey, hfailed, Or.inr rfl⟩

include h hloader hproject in
/-- The project adds warnings to the collisions of an element. -/
theorem collisions_extendedBy (element : Element) (sameName : Bool) :
    ExtendedBy (OutsideWarning root closure (.build (projectDocuments project closure)) element)
      (Rule.collisions root element (.build closure.loadedDocuments) closure sameName)
      (Rule.collisions root element (.build (projectDocuments project closure)) closure
        sameName) := by
  unfold Rule.collisions
  split
  · exact .nil
  · refine (packageCollisions_extendedBy h hloader hproject element).append ?_
    cases sameName
    · exact .nil
    · exact nameCollisions_extendedBy h hloader hproject element

/-! ## Runs -/

/-- A further finding of a run that indexes the whole project. -/
def FurtherFinding (root : Document) (closure : Closure) (index : SymbolIndex)
    (settings : Settings) (found : Diagnostic) : Prop :=
  settings.collisionCheck = true ∧ ∃ element ∈ root.elements,
    found ∈ Rule.collisions root element index closure settings.sameNameCheck ∧
      OutsideWarning root closure index element found

include h hloader hproject in
/-- The project adds warnings to the findings. -/
theorem findings_extendedBy (scope : TypeScope) (settings : Settings) :
    ExtendedBy
      (FurtherFinding root closure (.build (projectDocuments project closure)) settings)
      (findings root closure (.build closure.loadedDocuments) scope settings)
      (findings root closure (.build (projectDocuments project closure)) scope settings) := by
  have hnames : ∀ element ∈ root.elements, ExtendedBy
      (FurtherFinding root closure (.build (projectDocuments project closure)) settings)
      (nameFindings root closure (.build closure.loadedDocuments) settings element)
      (nameFindings root closure (.build (projectDocuments project closure)) settings
        element) := by
    intro element helement
    refine (ExtendedBy.refl _).append ?_
    split
    · rename_i hcheck
      exact (collisions_extendedBy h hloader hproject element settings.sameNameCheck).imp
        fun found hfound houtside => ⟨hcheck, element, helement, hfound, houtside⟩
    · exact .nil
  -- only the rules about names look at the index
  unfold findings
  refine ExtendedBy.append ?_ (.refl _)
  refine ExtendedBy.append ?_ (.refl _)
  refine ExtendedBy.append ?_ (.refl _)
  refine ExtendedBy.append ?_ (.refl _)
  refine ExtendedBy.append ?_ (.refl _)
  exact (ExtendedBy.refl _).append (ExtendedBy.flatMap hnames)

end Documents

/-- The checker with a loader without effects that indexes the project or not. -/
def projectChecker (answer : String → LoaderAnswer) (settings : Settings) (limit : Nat)
    (wholeProject : Bool) : Checker Id where
  loader := Loader.ofFunction answer
  settings := { settings with wholeProject := wholeProject }
  limit := limit

/-- A run of an enabled checker without an earlier index. -/
theorem run_validateDocument (answer : String → LoaderAnswer) (settings : Settings) (limit : Nat)
    (henabled : settings.enabled = true) (wholeProject : Bool) (root : Document)
    (directory : Option String) (project : List Document) :
    let closure := (resolve (Loader.ofFunction answer) limit root directory).run
    let index := SymbolIndex.build
      (if wholeProject then projectDocuments project closure else closure.loadedDocuments)
    (((projectChecker answer settings limit wholeProject).validateDocument root directory
      (some project) {}).run).1 =
      { path := root.identifier, document := some root, closure := some closure,
        index := some index,
        diagnostics := (findings root closure index
          (TypeScope.ofDocuments closure.loadedDocuments) settings).map
            (·.collectedWith settings.messageLead) } := by
  intro closure index
  have hrun := run_validateDocument_of_enabled answer
    { settings with wholeProject := wholeProject } limit (some project) {} root directory henabled
  dsimp only at hrun
  rw [run_runIndex] at hrun
  refine (congrArg Prod.fst hrun).trans ?_
  cases wholeProject <;> rfl

/-- **Whole-project runs only add warnings.** The loader answers every file that it can load with a
document of that file, and the project holds what the loader answers. If finitely many files are
reachable, so that the closure can be resolved at all, then the run that indexes the project reports
what the other run reports, in the same order, and between it only warnings of the collision rules
about files that do not belong to the closure. Both runs have errors or neither has. -/
theorem whole_project_adds_warnings (answer : String → LoaderAnswer) (root : Document)
    (directory : Option String) (settings : Settings) (project : List Document) (limit : Nat)
    (hfinite : {path | Reachable answer root directory path}.Finite)
    (henough : {path | Reachable answer root directory path}.ncard ≤ limit)
    (henabled : settings.enabled = true)
    (hloader : ∀ path document, (answer path).result path = .ok document →
      document.identifier = path)
    (hproject : ∀ document ∈ project,
      (answer document.identifier).result document.identifier = .ok document) :
    let run (wholeProject : Bool) := (((projectChecker answer settings limit
      wholeProject).validateDocument root directory (some project) {}).run).1
    let closure := (resolve (Loader.ofFunction answer) limit root directory).run
    let index := SymbolIndex.build (projectDocuments project closure)
    let further (reported : Diagnostic) : Prop := reported.severity = .warning ∧
      ∃ found, FurtherFinding root closure index settings found ∧
        reported = found.collectedWith settings.messageLead
    (run false).closure = some closure ∧ (run true).closure = some closure ∧
    (run true).index = some index ∧
    ExtendedBy further (run false).diagnostics (run true).diagnostics ∧
    (run false).diagnostics.Sublist (run true).diagnostics ∧
    (∀ reported ∈ (run true).diagnostics, reported ∉ (run false).diagnostics →
      further reported) ∧
    hasErrors (run false).diagnostics = hasErrors (run true).diagnostics := by
  intro run closure index further
  have hgraph : ImportGraph answer root directory closure := importGraph_resolve hfinite henough
  have hscoped := run_validateDocument answer settings limit henabled false root directory project
  have hwhole := run_validateDocument answer settings limit henabled true root directory project
  have hextended : ExtendedBy further (run false).diagnostics (run true).diagnostics := by
    simp only [run, hscoped, hwhole]
    refine (findings_extendedBy hgraph hloader hproject _ settings).map _ ?_
    rintro found ⟨hcheck, element, helement, hfound, hwarning, hfile⟩
    exact ⟨hwarning, found, ⟨hcheck, element, helement, hfound, hwarning, hfile⟩, rfl⟩
  refine ⟨?_, ?_, ?_, hextended, hextended.sublist,
    fun reported => hextended.further_of_not_mem, hextended.any_eq ?_⟩
  · simp only [run, hscoped, closure]
  · simp only [run, hwhole, closure]
  · simp only [run, hwhole, index, closure, if_true]
  · rintro reported ⟨hwarning, -⟩
    simp [Diagnostic.isError, hwarning]

/-! ## A project with a file that is not imported -/

/-- A root that imports one file. -/
def importingRoot : Document :=
  { package := "a", sourcePath := "/p/a.fidl", imports := [{ uri := "b.fidl" }],
    interfaces := [{ name := "I" }] }

/-- A file whose package lies inside the interface of that root. -/
def nestedFile (sourcePath : String) : Document :=
  { package := "a.I", sourcePath := sourcePath }

/-- A loader with two such files. -/
def nestedAnswer (path : String) : LoaderAnswer :=
  if path = "/p/b.fidl" then .document (nestedFile "/p/b.fidl")
  else if path = "/p/c.fidl" then .document (nestedFile "/p/c.fidl")
  else .nothing

/-- The run on the project reports at least what the run on the closure reports, which does not hold
the other file. -/
theorem nested_file_adds_warnings :
    let run (wholeProject : Bool) := (((projectChecker nestedAnswer {} 2
      wholeProject).validateDocument importingRoot none (some [nestedFile "/p/c.fidl"]) {}).run).1
    (resolve (Loader.ofFunction nestedAnswer) 2 importingRoot none).run.documents.map Prod.fst =
      ["/p/a.fidl", "/p/b.fidl"] ∧
    (run false).diagnostics.Sublist (run true).diagnostics ∧
    hasErrors (run false).diagnostics = hasErrors (run true).diagnostics := by
  intro run
  obtain ⟨hfinite, henough⟩ := finite_reachable_of_closed nestedAnswer importingRoot none
    ["/p/a.fidl", "/p/b.fidl"] (by decide) (by decide)
  have hloader : ∀ path document, (nestedAnswer path).result path = .ok document →
      document.identifier = path := by
    intro path document hok
    unfold nestedAnswer at hok
    split_ifs at hok with hb hc
    · cases hok
      rw [hb]
      decide
    · cases hok
      rw [hc]
      decide
    · cases hok
  obtain ⟨-, -, -, -, hsublist, -, herrors⟩ := whole_project_adds_warnings nestedAnswer
    importingRoot none {} [nestedFile "/p/c.fidl"] 2 hfinite henough rfl hloader (by decide)
  exact ⟨by decide, hsublist, herrors⟩

end FrancaLint
