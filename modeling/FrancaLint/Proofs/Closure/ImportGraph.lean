import FrancaLint.Proofs.Closure.Walk

/-! # The import graph of a root

A walk that has come to an end has found the import graph of its root: the reachable files with
their documents, imports and failures.

* `ImportGraph`, a closure that records the graph; `importGraph_resolve`, the closure of a root does
  so as soon as its limit is not below the number of reachable files.
* `ImportGraph.mem_importsFrom_iff` and `ImportGraph.reachable_iff_transitive`: what a file and the
  root import in such a closure.
* `resolve_finds_import_graph`, all of it for the closure of a root. -/

namespace FrancaLint.Closure

open Relation

variable {answer : String → LoaderAnswer} {root : Document} {directory : Option String}

/-! ## The closure of a root -/

/-- A closure that records the **import graph** of its root. -/
structure ImportGraph (answer : String → LoaderAnswer) (root : Document)
    (directory : Option String) (closure : Closure) : Prop where
  /-- The root has its identifier. -/
  root_eq : closure.root = Path.normalize root.sourcePath
  /-- Documents and imports are recorded for the same files. -/
  keys_eq : closure.imports.map Prod.fst = closure.documents.map Prod.fst
  /-- No file has two documents. -/
  documents_nodup : (closure.documents.map Prod.fst).Nodup
  /-- No file fails twice. -/
  failed_nodup : (closure.failed.map Prod.fst).Nodup
  /-- The documents are those of the reachable files. -/
  mem_documents : ∀ path document, (path, document) ∈ closure.documents ↔
    Reachable answer root directory path ∧ fileDocument? answer root path = some document
  /-- The failures are those of the reachable files. -/
  mem_failed : ∀ path reason, (path, reason) ∈ closure.failed ↔
    Reachable answer root directory path ∧ fileFailure? answer root path = some reason
  /-- The recorded targets of a file are all of its targets. -/
  of_imports : ∀ path targets, (path, targets) ∈ closure.imports →
    targets = fileTargets answer root directory path

/-- In a sound walk with an empty queue every reachable file is known. -/
theorem Walk.Sound.knows_of_reachable {visited : Nat} {walk : Walk}
    (h : walk.Sound answer root directory visited []) (hpending : walk.pending = [])
    {path : String} (hreach : Reachable answer root directory path) : walk.Knows path := by
  induction hreach with
  | root => exact Or.inl h.root_mem
  | @target importer target _ imported ih =>
    obtain ⟨document, hdocument⟩ := exists_fileDocument?_of_mem_fileTargets imported
    rcases ih with hmem | hmem
    · rw [← h.keys_eq] at hmem
      obtain ⟨⟨_, targets⟩, hentry, rfl⟩ := List.mem_map.mp hmem
      rw [← h.of_imports _ targets hentry] at imported
      rcases h.covers _ targets hentry target imported with hk | hc | ⟨entry, hmem, -⟩
      · exact hk
      · exact absurd hc List.not_mem_nil
      · rw [hpending] at hmem
        exact absurd hmem List.not_mem_nil
    · -- a file that has failed has no document, so it imports nothing
      obtain ⟨⟨_, reason⟩, hentry, rfl⟩ := List.mem_map.mp hmem
      have hnone := fileDocument?_eq_none_of_fileFailure? (h.of_failed _ reason hentry).2
      rw [hnone] at hdocument
      exact absurd hdocument (Option.some_ne_none _).symm

/-- A sound walk with an empty queue has found the import graph. -/
theorem Walk.Sound.importGraph {visited : Nat} {walk : Walk}
    (h : walk.Sound answer root directory visited []) (hpending : walk.pending = []) :
    ImportGraph answer root directory walk.found where
  root_eq := h.root_eq
  keys_eq := h.keys_eq
  documents_nodup := h.documents_nodup
  failed_nodup := h.failed_nodup
  mem_documents := by
    intro path document
    constructor
    · exact h.of_documents path document
    · -- a reachable file is known, and a file with a document has not failed
      rintro ⟨hreach, hdocument⟩
      rcases h.knows_of_reachable hpending hreach with hmem | hmem
      · obtain ⟨⟨_, other⟩, hentry, rfl⟩ := List.mem_map.mp hmem
        have hother := (h.of_documents _ other hentry).2
        rw [hdocument, Option.some.injEq] at hother
        rwa [hother]
      · obtain ⟨⟨_, reason⟩, hentry, rfl⟩ := List.mem_map.mp hmem
        have hnone := fileDocument?_eq_none_of_fileFailure? (h.of_failed _ reason hentry).2
        rw [hnone] at hdocument
        exact absurd hdocument (Option.some_ne_none _).symm
  mem_failed := by
    intro path reason
    constructor
    · exact h.of_failed path reason
    · rintro ⟨hreach, hfailure⟩
      rcases h.knows_of_reachable hpending hreach with hmem | hmem
      · obtain ⟨⟨_, document⟩, hentry, rfl⟩ := List.mem_map.mp hmem
        have hnone := fileDocument?_eq_none_of_fileFailure? hfailure
        rw [(h.of_documents _ document hentry).2] at hnone
        exact absurd hnone (Option.some_ne_none _)
      · obtain ⟨⟨_, other⟩, hentry, rfl⟩ := List.mem_map.mp hmem
        have hother := (h.of_failed _ other hentry).2
        rw [hfailure, Option.some.injEq] at hother
        rwa [hother]
  of_imports := h.of_imports

/-- The closure of a root whose limit is not below the number of reachable files. -/
theorem importGraph_resolve {limit : Nat}
    (hfinite : {path | Reachable answer root directory path}.Finite)
    (henough : {path | Reachable answer root directory path}.ncard ≤ limit) :
    ImportGraph answer root directory
      (resolve (Loader.ofFunction answer) limit root directory).run := by
  rw [← Nat.zero_add limit] at henough
  obtain ⟨hpending, visited, hsound⟩ :=
    (sound_start answer root directory).visitPending hfinite henough
  exact hsound.importGraph hpending

namespace ImportGraph

variable {closure : Closure} (h : ImportGraph answer root directory closure)
include h

/-- The loaded files are the reachable ones with a document. -/
theorem mem_keys_iff {path : String} : path ∈ closure.documents.map Prod.fst ↔
    Reachable answer root directory path ∧
      ∃ document, fileDocument? answer root path = some document := by
  constructor
  · intro hmem
    obtain ⟨⟨_, document⟩, hentry, rfl⟩ := List.mem_map.mp hmem
    obtain ⟨hreach, hdocument⟩ := (h.mem_documents _ document).mp hentry
    exact ⟨hreach, document, hdocument⟩
  · rintro ⟨hreach, document, hdocument⟩
    exact List.mem_map.mpr ⟨_, (h.mem_documents path document).mpr ⟨hreach, hdocument⟩, rfl⟩

/-- The failed files are the reachable ones without a document. -/
theorem mem_failed_keys_iff {path : String} : path ∈ closure.failed.map Prod.fst ↔
    Reachable answer root directory path ∧
      ∃ reason, fileFailure? answer root path = some reason := by
  constructor
  · intro hmem
    obtain ⟨⟨_, reason⟩, hentry, rfl⟩ := List.mem_map.mp hmem
    obtain ⟨hreach, hfailure⟩ := (h.mem_failed _ reason).mp hentry
    exact ⟨hreach, reason, hfailure⟩
  · rintro ⟨hreach, reason, hfailure⟩
    exact List.mem_map.mpr ⟨_, (h.mem_failed path reason).mpr ⟨hreach, hfailure⟩, rfl⟩

/-- No file is both loaded and failed. -/
theorem disjoint_keys :
    List.Disjoint (closure.documents.map Prod.fst) (closure.failed.map Prod.fst) := by
  intro path hloaded hfailed
  obtain ⟨-, document, hdocument⟩ := h.mem_keys_iff.mp hloaded
  obtain ⟨-, reason, hfailure⟩ := h.mem_failed_keys_iff.mp hfailed
  rw [fileDocument?_eq_none_of_fileFailure? hfailure] at hdocument
  exact absurd hdocument (Option.some_ne_none _).symm

/-- The reachable files are those that are loaded or failed. -/
theorem reachable_iff_known {path : String} : Reachable answer root directory path ↔
    path ∈ closure.documents.map Prod.fst ∨ path ∈ closure.failed.map Prod.fst := by
  constructor
  · intro hreach
    rcases fileDocument?_or_fileFailure? answer root path with hd | hf
    · exact Or.inl (h.mem_keys_iff.mpr ⟨hreach, hd⟩)
    · exact Or.inr (h.mem_failed_keys_iff.mpr ⟨hreach, hf⟩)
  · rintro (hmem | hmem)
    · exact (h.mem_keys_iff.mp hmem).1
    · exact (h.mem_failed_keys_iff.mp hmem).1

/-- No file has its imports recorded twice. -/
theorem imports_nodup : (closure.imports.map Prod.fst).Nodup := by
  rw [h.keys_eq]
  exact h.documents_nodup

/-- The recorded edges lead from reachable files to their targets. -/
theorem edge_iff {importer target : String} : Graph.Edge closure.imports importer target ↔
    Reachable answer root directory importer ∧
      target ∈ fileTargets answer root directory importer := by
  rw [Graph.edge_iff_of_nodup h.imports_nodup]
  constructor
  · rintro ⟨targets, hentry, hmem⟩
    have hkey : importer ∈ closure.documents.map Prod.fst := by
      rw [← h.keys_eq]
      exact List.mem_map.mpr ⟨_, hentry, rfl⟩
    rw [h.of_imports importer targets hentry] at hmem
    exact ⟨(h.mem_keys_iff.mp hkey).1, hmem⟩
  · rintro ⟨hreach, hmem⟩
    have hkey := h.mem_keys_iff.mpr ⟨hreach, exists_fileDocument?_of_mem_fileTargets hmem⟩
    rw [← h.keys_eq] at hkey
    obtain ⟨⟨_, targets⟩, hentry, rfl⟩ := List.mem_map.mp hkey
    exact ⟨targets, hentry, by rwa [h.of_imports _ targets hentry]⟩

/-- The imports of a file are what it leads to by at least one recorded edge. -/
theorem mem_importsFrom_iff {path target : String} : target ∈ closure.importsFrom path ↔
    TransGen (fun a b => Reachable answer root directory a ∧
      b ∈ fileTargets answer root directory a) (Path.normalize path) target := by
  have hedges : Graph.Edge closure.imports = fun a b => Reachable answer root directory a ∧
      b ∈ fileTargets answer root directory a := by
    funext a b
    exact propext h.edge_iff
  rw [importsFrom, reachableFrom, Graph.mem_reach_successors_iff, hedges]

/-- The reachable files are the root and what it imports. -/
theorem reachable_iff_transitive {path : String} : Reachable answer root directory path ↔
    path = Path.normalize root.sourcePath ∨ path ∈ closure.transitiveImports := by
  rw [transitiveImports, reachableFrom, Graph.mem_reach_successors_iff, h.root_eq]
  constructor
  · intro hreach
    -- on the chain of imports from the root
    induction hreach with
    | root => exact Or.inl rfl
    | @target importer target reached imported ih =>
      have hedge := h.edge_iff.mpr ⟨reached, imported⟩
      rcases ih with rfl | hpath
      · exact Or.inr (.single hedge)
      · exact Or.inr (hpath.tail hedge)
  · rintro (rfl | hpath)
    · exact .root
    · obtain ⟨importer, -, hedge⟩ := TransGen.tail'_iff.mp hpath
      obtain ⟨hreach, hmem⟩ := h.edge_iff.mp hedge
      exact .target hreach hmem

end ImportGraph

/-- **The closure of a root is its import graph.** If finitely many files are reachable, then a walk
that may visit that many files comes to an end. Its closure has the documents and the imports of the
root and of every other reachable file that loads, and the reasons of every other reachable file
that fails. What the root imports are the reachable files, and what any file imports is what it
leads to by the imports of reachable files. -/
theorem resolve_finds_import_graph (answer : String → LoaderAnswer) (root : Document)
    (directory : Option String) (limit : Nat)
    (hfinite : {path | Reachable answer root directory path}.Finite)
    (henough : {path | Reachable answer root directory path}.ncard ≤ limit) :
    let loader := Loader.ofFunction answer
    let closure := (resolve loader limit root directory).run
    let loaded := closure.documents.map Prod.fst
    let failed := closure.failed.map Prod.fst
    (visitPending loader limit (start root directory)).run.pending = [] ∧
    closure.imports.map Prod.fst = loaded ∧ loaded.Nodup ∧ failed.Nodup ∧
    (∀ path document, (path, document) ∈ closure.documents ↔
      Reachable answer root directory path ∧
        (path = Path.normalize root.sourcePath ∧ document = root ∨
          path ≠ Path.normalize root.sourcePath ∧
            (answer path).result path = .ok document)) ∧
    (∀ path reason, (path, reason) ∈ closure.failed ↔
      Reachable answer root directory path ∧ path ≠ Path.normalize root.sourcePath ∧
        ∃ failure, (answer path).result path = .error failure ∧ failure.reason = reason) ∧
    loaded.Disjoint failed ∧
    (∀ path, Reachable answer root directory path ↔ path ∈ loaded ∨ path ∈ failed) ∧
    (∀ path targets, (path, targets) ∈ closure.imports →
      targets = fileTargets answer root directory path) ∧
    (∀ path, Reachable answer root directory path ↔
      path = Path.normalize root.sourcePath ∨ path ∈ closure.transitiveImports) ∧
    (∀ path target, target ∈ closure.importsFrom path ↔
      TransGen (fun a b => Reachable answer root directory a ∧
        b ∈ fileTargets answer root directory a) (Path.normalize path) target) := by
  intro loader closure loaded failed
  have hgraph : ImportGraph answer root directory closure := importGraph_resolve hfinite henough
  refine ⟨((sound_start answer root directory).visitPending hfinite (by omega)).1, hgraph.keys_eq,
    hgraph.documents_nodup, hgraph.failed_nodup, ?_, ?_, hgraph.disjoint_keys,
    fun _ => hgraph.reachable_iff_known, hgraph.of_imports,
    fun _ => hgraph.reachable_iff_transitive, fun _ _ => hgraph.mem_importsFrom_iff⟩
  · intro path document
    rw [hgraph.mem_documents, fileDocument?_eq_some_iff]
  · intro path reason
    rw [hgraph.mem_failed, fileFailure?_eq_some_iff]

/-! ## A cycle with a missing file -/

/-- A root that imports a file and a missing one. -/
def cycleRoot : Document :=
  { package := "a", sourcePath := "/p/a.fidl",
    imports := [{ uri := "b.fidl" }, { uri := "missing.fidl" }] }

/-- A loader with one file, which imports the root and itself. -/
def cycleAnswer (path : String) : LoaderAnswer :=
  if path = "/p/b.fidl" then
    .document
      { package := "b", sourcePath := "/p/b.fidl",
        imports := [{ uri := "a.fidl" }, { uri := "b.fidl" }] }
  else .nothing

/-- The closure of that root is complete after three files. -/
theorem resolve_cycle : {path | Reachable cycleAnswer cycleRoot none path}.Finite ∧
    {path | Reachable cycleAnswer cycleRoot none path}.ncard ≤ 3 ∧
    ∀ path, Reachable cycleAnswer cycleRoot none path ↔
      path = Path.normalize cycleRoot.sourcePath ∨
        path ∈ (resolve (Loader.ofFunction cycleAnswer) 3 cycleRoot none).run.transitiveImports := by
  obtain ⟨hfinite, henough⟩ := finite_reachable_of_closed cycleAnswer cycleRoot none
    ["/p/a.fidl", "/p/b.fidl", "/p/missing.fidl"]
    (by decide) (by decide)
  obtain ⟨-, -, -, -, -, -, -, -, -, htransitive, -⟩ :=
    resolve_finds_import_graph cycleAnswer cycleRoot none 3 hfinite henough
  exact ⟨hfinite, henough, htransitive⟩

end FrancaLint.Closure
