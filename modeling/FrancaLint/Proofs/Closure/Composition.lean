import FrancaLint.Proofs.Closure.BrokenImports
import FrancaLint.Rule.BrokenImport

/-! # Closures of imported files

A file that a root imports is the root of a closure of its own. This is the part of the first
closure that the file leads to: which file was the root only decides where the walk started.

* `Faithful`, a loader whose documents are those of the files it is asked for; then the root is a
  file like the others, and `targetsOf` are its imports.
* `Restricts`, a closure that is the part of another one behind some file.
* `restricts_resolve` and `closure_of_imported_file`: the closure of an imported file is such a
  part, and what is doubtful about the root because of that file is an error of the file itself. -/

namespace FrancaLint.Closure

open Relation

/-! ## Roots that are loaded themselves -/

/-- A loader is **faithful** when every document that it answers has the identifier that it was
asked for as its source path, in canonical spelling. -/
def Faithful (answer : String → LoaderAnswer) : Prop :=
  ∀ path document, (answer path).result path = .ok document →
    document.sourcePath = path ∧ Path.normalize path = path

/-- The targets of a file that loads, relative to its directory; any other file has none. -/
def targetsOf (answer : String → LoaderAnswer) (path : String) : List String :=
  match (answer path).result path with
  | .ok document => document.importTargets document.directory
  | .error _ => []

section Loaded

variable {answer : String → LoaderAnswer} (hfaithful : Faithful answer)
variable {path : String} {root : Document} (hroot : (answer path).result path = .ok root)
include hfaithful hroot

/-- The identifier of a loaded root is that of its file. -/
theorem normalize_sourcePath_of_loaded : Path.normalize root.sourcePath = path := by
  obtain ⟨hpath, hnormal⟩ := hfaithful path root hroot
  rw [hpath, hnormal]

/-- Seen from a loaded root, every file has the document that the loader answers. -/
theorem fileDocument?_iff_of_loaded {file : String} {document : Document} :
    fileDocument? answer root file = some document ↔
      (answer file).result file = .ok document := by
  rw [fileDocument?_eq_some_iff, normalize_sourcePath_of_loaded hfaithful hroot]
  by_cases hfile : file = path
  · subst hfile
    simp [hroot, eq_comm]
  · simp [hfile]

/-- Seen from a loaded root, every file fails as the loader answers. -/
theorem fileFailure?_iff_of_loaded {file reason : String} :
    fileFailure? answer root file = some reason ↔
      ∃ failure, (answer file).result file = .error failure ∧ failure.reason = reason := by
  rw [fileFailure?_eq_some_iff, normalize_sourcePath_of_loaded hfaithful hroot]
  constructor
  · exact fun h => h.2
  · rintro ⟨failure, herror, hreason⟩
    refine ⟨?_, failure, herror, hreason⟩
    rintro rfl
    rw [hroot] at herror
    cases herror

/-- Seen from a loaded root, the imports of every file are relative to the directory of the file. -/
theorem fileTargets_of_loaded (file : String) :
    fileTargets answer root none file = targetsOf answer file := by
  have hpath := normalize_sourcePath_of_loaded hfaithful hroot
  unfold targetsOf
  cases hresult : (answer file).result file with
  | error failure =>
    have hnone := fileDocument?_eq_none_of_fileFailure?
      ((fileFailure?_iff_of_loaded hfaithful hroot).mpr ⟨failure, hresult, rfl⟩)
    simp [fileTargets, hnone]
  | ok document =>
    -- the root has the directory of its source path, any other file that of its identifier
    by_cases hfile : file = path
    · subst hfile
      rw [hroot, Except.ok.injEq] at hresult
      subst hresult
      conv_lhs => rw [← hpath]
      rw [fileTargets_root, rootDirectory]
    · have hne : file ≠ Path.normalize root.sourcePath := by rwa [hpath]
      rw [fileTargets_of_ok hne hresult]
      simp only [Document.directory, (hfaithful file document hresult).1]

/-- What is reachable from a loaded root is what its file leads to. -/
theorem reachable_iff_of_loaded {file : String} :
    Reachable answer root none file ↔
      ReflTransGen (fun importer target => target ∈ targetsOf answer importer) path file := by
  have hpath := normalize_sourcePath_of_loaded hfaithful hroot
  constructor
  · intro hreach
    induction hreach with
    | root => rw [hpath]
    | target _ imported ih =>
      rw [fileTargets_of_loaded hfaithful hroot] at imported
      exact ih.tail imported
  · intro hchain
    induction hchain with
    | refl =>
      rw [← hpath]
      exact .root
    | tail _ imported ih =>
      refine .target ih ?_
      rwa [fileTargets_of_loaded hfaithful hroot]

end Loaded

/-- The broken imports of a file do not depend on which file is the root. -/
theorem brokenImportsOf_eq_of_loaded {answer : String → LoaderAnswer} (hfaithful : Faithful answer)
    {a b : String} {rootA rootB : Document} (ha : (answer a).result a = .ok rootA)
    (hb : (answer b).result b = .ok rootB) :
    brokenImportsOf answer rootB = brokenImportsOf answer rootA := by
  have hfailure : fileFailure? answer rootB = fileFailure? answer rootA := by
    funext file
    refine Option.ext fun reason => ?_
    rw [fileFailure?_iff_of_loaded hfaithful hb, fileFailure?_iff_of_loaded hfaithful ha]
  have hbroken : brokenImport? answer rootB = brokenImport? answer rootA := by
    funext importer edge
    rw [brokenImport?, brokenImport?, hfailure]
  funext entry
  rw [brokenImportsOf, brokenImportsOf, hbroken]

/-- The recorded imports are those of the reachable files with a document. -/
theorem ImportGraph.mem_imports_iff {answer : String → LoaderAnswer} {root : Document}
    {directory : Option String} {closure : Closure}
    (h : ImportGraph answer root directory closure) {path : String} {targets : List String} :
    (path, targets) ∈ closure.imports ↔ Reachable answer root directory path ∧
      (∃ document, fileDocument? answer root path = some document) ∧
        targets = fileTargets answer root directory path := by
  rw [← and_assoc, ← h.mem_keys_iff, ← h.keys_eq]
  constructor
  · intro hentry
    exact ⟨List.mem_map.mpr ⟨_, hentry, rfl⟩, h.of_imports path targets hentry⟩
  · rintro ⟨hkey, rfl⟩
    obtain ⟨⟨_, targets⟩, hentry, rfl⟩ := List.mem_map.mp hkey
    rwa [← h.of_imports _ targets hentry]

/-! ## Parts of a closure -/

/-- A closure is the **part** of another one behind a file when it has recorded the same about the
file and everything that it imports, and nothing about other files. -/
structure Restricts (whole : Closure) (path : String) (part : Closure) : Prop where
  /-- The file is the root. -/
  root_eq : part.root = path
  /-- No file is recorded twice. -/
  imports_nodup : (part.imports.map Prod.fst).Nodup
  /-- No file fails twice. -/
  failed_nodup : (part.failed.map Prod.fst).Nodup
  /-- The imports are those of the file and of what it imports. -/
  imports_perm : part.imports.Perm
    (whole.imports.filter fun entry => entry.1 = path ∨ entry.1 ∈ whole.importsFrom path)
  /-- The documents are those of the file and of what it imports. -/
  documents_perm : part.documents.Perm
    (whole.documents.filter fun entry => entry.1 = path ∨ entry.1 ∈ whole.importsFrom path)
  /-- The failures are those of the files that it imports. -/
  failed_perm : part.failed.Perm
    (whole.failed.filter fun entry => entry.1 ∈ whole.importsFrom path)
  /-- Each file has the same broken imports in the same order. -/
  failedImports_eq : ∀ importer ∈ part.documents.map Prod.fst,
    part.failedImports.filter (·.importer = importer) =
      whole.failedImports.filter (·.importer = importer)

/-- The file itself is loaded in its part. -/
theorem Restricts.mem_keys {whole part : Closure} {path : String} (h : Restricts whole path part)
    (hloaded : path ∈ whole.documents.map Prod.fst) : path ∈ part.documents.map Prod.fst := by
  obtain ⟨entry, hentry, rfl⟩ := List.mem_map.mp hloaded
  refine List.mem_map.mpr ⟨entry, h.documents_perm.mem_iff.mpr ?_, rfl⟩
  exact List.mem_filter.mpr ⟨hentry, decide_eq_true (Or.inl rfl)⟩

section Imported

variable {answer : String → LoaderAnswer} (hfaithful : Faithful answer)
variable {a b : String} {rootA rootB : Document} (ha : (answer a).result a = .ok rootA)
  (hb : (answer b).result b = .ok rootB) (himported : Reachable answer rootA none b)
include hfaithful ha hb himported

/-- What is reachable from an imported file is reachable from the root. -/
theorem reachable_of_imported {path : String} (h : Reachable answer rootB none path) :
    Reachable answer rootA none path := by
  rw [reachable_iff_of_loaded hfaithful ha] at himported ⊢
  rw [reachable_iff_of_loaded hfaithful hb] at h
  exact himported.trans h

/-- What is reachable from an imported file is the file and what it imports in the closure of the
root. -/
theorem reachable_imported_iff {whole : Closure} (hwhole : ImportGraph answer rootA none whole)
    {path : String} :
    Reachable answer rootB none path ↔ path = b ∨ path ∈ whole.importsFrom b := by
  rw [reachable_iff_of_loaded hfaithful hb, reflTransGen_iff_eq_or_transGen,
    hwhole.mem_importsFrom_iff, (hfaithful b rootB hb).2]
  refine or_congr_right ⟨fun hchain => ?_, fun hchain => ?_⟩
  · -- every file of the chain is reachable from the root, since its start is
    induction hchain with
    | single imported =>
      refine .single ⟨himported, ?_⟩
      rwa [fileTargets_of_loaded hfaithful ha]
    | @tail importer target before imported ih =>
      refine ih.tail ⟨?_, ?_⟩
      · rw [reachable_iff_of_loaded hfaithful ha] at himported ⊢
        exact himported.trans before.to_reflTransGen
      · rwa [fileTargets_of_loaded hfaithful ha]
  · refine TransGen.mono (fun importer target hedge => ?_) b path hchain
    rw [← fileTargets_of_loaded hfaithful ha]
    exact hedge.2

/-- An import graph with an imported file as root is the part behind that file. -/
theorem ImportGraph.restricts {whole part : Closure} (hwhole : ImportGraph answer rootA none whole)
    (hpart : ImportGraph answer rootB none part)
    (hbrokenA : whole.failedImports = whole.imports.flatMap (brokenImportsOf answer rootA))
    (hbrokenB : part.failedImports = part.imports.flatMap (brokenImportsOf answer rootB)) :
    Restricts whole b part := by
  have hreach : ∀ path, Reachable answer rootB none path ↔
      path = b ∨ path ∈ whole.importsFrom b :=
    fun _ => reachable_imported_iff hfaithful ha hb himported hwhole
  have hmono : ∀ path, Reachable answer rootB none path → Reachable answer rootA none path :=
    fun _ => reachable_of_imported hfaithful ha hb himported
  have himports : part.imports.Perm
      (whole.imports.filter fun entry => entry.1 = b ∨ entry.1 ∈ whole.importsFrom b) := by
    rw [List.perm_ext_iff_of_nodup hpart.imports_nodup.of_map
      (hwhole.imports_nodup.of_map.filter _)]
    rintro ⟨path, targets⟩
    rw [List.mem_filter, hpart.mem_imports_iff, hwhole.mem_imports_iff, decide_eq_true_iff,
      ← hreach, fileTargets_of_loaded hfaithful ha, fileTargets_of_loaded hfaithful hb]
    simp only [fileDocument?_iff_of_loaded hfaithful ha, fileDocument?_iff_of_loaded hfaithful hb]
    exact ⟨fun h => ⟨⟨hmono path h.1, h.2⟩, h.1⟩, fun h => ⟨h.2, h.1.2⟩⟩
  constructor
  case root_eq => rw [hpart.root_eq, normalize_sourcePath_of_loaded hfaithful hb]
  case imports_nodup => exact hpart.imports_nodup
  case failed_nodup => exact hpart.failed_nodup
  case imports_perm => exact himports
  case documents_perm =>
    rw [List.perm_ext_iff_of_nodup hpart.documents_nodup.of_map
      (hwhole.documents_nodup.of_map.filter _)]
    rintro ⟨path, document⟩
    rw [List.mem_filter, hpart.mem_documents, hwhole.mem_documents, decide_eq_true_iff, ← hreach,
      fileDocument?_iff_of_loaded hfaithful ha, fileDocument?_iff_of_loaded hfaithful hb]
    exact ⟨fun h => ⟨⟨hmono path h.1, h.2⟩, h.1⟩, fun h => ⟨h.2, h.1.2⟩⟩
  case failed_perm =>
    rw [List.perm_ext_iff_of_nodup hpart.failed_nodup.of_map (hwhole.failed_nodup.of_map.filter _)]
    rintro ⟨path, reason⟩
    rw [List.mem_filter, hpart.mem_failed, hwhole.mem_failed, decide_eq_true_iff,
      fileFailure?_iff_of_loaded hfaithful ha, fileFailure?_iff_of_loaded hfaithful hb]
    constructor
    · rintro ⟨hpath, failure, herror, hreason⟩
      refine ⟨⟨hmono path hpath, failure, herror, hreason⟩, ?_⟩
      -- the file itself does not fail
      rcases (hreach path).mp hpath with rfl | hpath
      · rw [hb] at herror
        cases herror
      · exact hpath
    · rintro ⟨⟨-, hfailure⟩, hpath⟩
      exact ⟨(hreach path).mpr (Or.inr hpath), hfailure⟩
  case failedImports_eq =>
    intro importer himporter
    rw [← hpart.keys_eq] at himporter
    obtain ⟨entry, hentry, rfl⟩ := List.mem_map.mp himporter
    have hentryA := (List.mem_filter.mp (himports.mem_iff.mp hentry)).1
    have hB := filter_flatMap_brokenImportsOf answer rootB hpart.imports_nodup hentry
    have hA := filter_flatMap_brokenImportsOf answer rootA hwhole.imports_nodup hentryA
    rw [← hbrokenB] at hB
    rw [← hbrokenA] at hA
    rw [brokenImportsOf_eq_of_loaded hfaithful ha hb, ← hA] at hB
    exact hB

end Imported

/-- The closure of a root, relative to its own directory. -/
def closureOf (answer : String → LoaderAnswer) (limit : Nat) (root : Document) : Closure :=
  (resolve (Loader.ofFunction answer) limit root none).run

section Imported

variable {answer : String → LoaderAnswer} (hfaithful : Faithful answer) {limit : Nat}
variable {a b : String} {rootA rootB : Document} (ha : (answer a).result a = .ok rootA)
  (hb : (answer b).result b = .ok rootB)
  (hfinite : {path | Reachable answer rootA none path}.Finite)
  (henough : {path | Reachable answer rootA none path}.ncard ≤ limit)
include hfaithful ha hb hfinite henough

/-- The closure of a file that is loaded in a complete closure is the part behind that file. -/
theorem restricts_closureOf
    (himported : b ∈ (closureOf answer limit rootA).documents.map Prod.fst) :
    Restricts (closureOf answer limit rootA) b (closureOf answer limit rootB) := by
  have hgraphA : ImportGraph answer rootA none (closureOf answer limit rootA) :=
    importGraph_resolve hfinite henough
  have hreach := (hgraphA.mem_keys_iff.mp himported).1
  -- what an imported file reaches is no more than what the root does
  have hsubset : {path | Reachable answer rootB none path} ⊆
      {path | Reachable answer rootA none path} :=
    fun path => reachable_of_imported hfaithful ha hb hreach
  have hfiniteB := hfinite.subset hsubset
  have henoughB := (Set.ncard_le_ncard hsubset hfinite).trans henough
  have hgraphB : ImportGraph answer rootB none (closureOf answer limit rootB) :=
    importGraph_resolve hfiniteB henoughB
  exact hgraphA.restricts hfaithful ha hb hreach hgraphB (failedImports_resolve hfinite henough)
    (failedImports_resolve hfiniteB henoughB)

end Imported

/-! ## Doubtful and broken imports -/

/-- The warning on a root about an import of another file. -/
def deepWarning (root : Document) (edge : FailedImport) : Diagnostic :=
  .about .warning
    ("File " ++ edge.target ++ " imported via " ++ edge.importer ++
      " could not be loaded: " ++ edge.reason)
    { document := root.sourcePath, feature := some "imports" }

/-- The error on a root at one of its imports. -/
def importError (root : Document) (edge : FailedImport) (declared : Import) : Diagnostic :=
  .about .error
    ("Imported file " ++ edge.target ++ " could not be loaded: " ++ edge.reason)
    { document := root.sourcePath, feature := some "imports", index := some edge.index }
    declared.span

/-- A warning is about a broken import of a file that is not the root. -/
theorem exists_deepWarning_of_mem {root : Document} {closure : Closure} {found : Diagnostic}
    (hfound : found ∈ Rule.brokenImports root closure) (hwarning : found.severity = .warning) :
    ∃ edge ∈ closure.failedImports, edge.importer ≠ closure.root ∧
      found = deepWarning root edge := by
  obtain ⟨edge, hedge, rfl⟩ := List.mem_map.mp hfound
  refine ⟨edge, hedge, ?_⟩
  unfold Rule.brokenImport at hwarning ⊢
  split at hwarning
  · -- the finding about an import of the root itself is an error
    cases hwarning
  · rename_i himporter
    rw [if_neg himporter]
    exact ⟨himporter, rfl⟩

/-- A broken import of the root is an error at that import. -/
theorem importError_mem {root : Document} {closure : Closure} {edge : FailedImport}
    (hedge : edge ∈ closure.failedImports) (himporter : edge.importer = closure.root)
    {declared : Import} (hdeclared : root.imports[edge.index]? = some declared) :
    importError root edge declared ∈ Rule.brokenImports root closure := by
  refine List.mem_map.mpr ⟨edge, hedge, ?_⟩
  rw [Rule.brokenImport, if_pos himporter, hdeclared]
  rfl

/-- A broken import is declared in its file under its position, and leads to its target. -/
theorem exists_import_of_mem_brokenImportsOf {answer : String → LoaderAnswer} {root : Document}
    {path directory : String} {importer : Document} {edge : FailedImport}
    (h : edge ∈ brokenImportsOf answer root (path, importer.importTargets directory)) :
    ∃ declared, importer.imports[edge.index]? = some declared ∧
      Path.resolve declared.uri directory = edge.target := by
  obtain ⟨⟨target, index⟩, hposition, hbroken⟩ := List.mem_filterMap.mp h
  obtain ⟨reason, -, rfl⟩ := Option.map_eq_some_iff.mp hbroken
  have htarget := List.mem_zipIdx_iff_getElem?.mp hposition
  rw [Document.importTargets, List.getElem?_map] at htarget
  exact Option.map_eq_some_iff.mp htarget

/-- A broken import that a complete closure records is declared by its importer, which loads. -/
theorem exists_importer_of_mem {answer : String → LoaderAnswer} (hfaithful : Faithful answer)
    {limit : Nat} {a : String} {root : Document} (ha : (answer a).result a = .ok root)
    (hfinite : {path | Reachable answer root none path}.Finite)
    (henough : {path | Reachable answer root none path}.ncard ≤ limit) {edge : FailedImport}
    (hedge : edge ∈ (closureOf answer limit root).failedImports) :
    edge.importer ∈ (closureOf answer limit root).documents.map Prod.fst ∧
      ∃ importer declared, (answer edge.importer).result edge.importer = .ok importer ∧
        importer.imports[edge.index]? = some declared ∧
        Path.resolve declared.uri importer.directory = edge.target := by
  have hgraph : ImportGraph answer root none (closureOf answer limit root) :=
    importGraph_resolve hfinite henough
  rw [closureOf, failedImports_resolve hfinite henough] at hedge
  obtain ⟨⟨path, targets⟩, hentry, hbroken⟩ := List.mem_flatMap.mp hedge
  obtain ⟨hreach, ⟨importer, hdocument⟩, htargets⟩ := hgraph.mem_imports_iff.mp hentry
  have hload := (fileDocument?_iff_of_loaded hfaithful ha).mp hdocument
  rw [fileTargets_of_loaded hfaithful ha, targetsOf, hload] at htargets
  subst htargets
  obtain ⟨declared, hdeclared, htarget⟩ := exists_import_of_mem_brokenImportsOf hbroken
  rw [importer_of_mem_brokenImportsOf hbroken]
  exact ⟨hgraph.mem_keys_iff.mpr ⟨hreach, importer, hdocument⟩, importer, declared, hload,
    hdeclared, htarget⟩

/-- A broken import that a complete closure records is an error of its importer. -/
theorem importError_mem_of_mem {answer : String → LoaderAnswer} (hfaithful : Faithful answer)
    {limit : Nat} {a : String} {root : Document} (ha : (answer a).result a = .ok root)
    (hfinite : {path | Reachable answer root none path}.Finite)
    (henough : {path | Reachable answer root none path}.ncard ≤ limit) {edge : FailedImport}
    (hedge : edge ∈ (closureOf answer limit root).failedImports) :
    ∃ importer declared, (answer edge.importer).result edge.importer = .ok importer ∧
      importer.imports[edge.index]? = some declared ∧
      Path.resolve declared.uri importer.directory = edge.target ∧
      importError importer edge declared ∈
        Rule.brokenImports importer (closureOf answer limit importer) := by
  obtain ⟨hloaded, importer, declared, hload, hdeclared, htarget⟩ :=
    exists_importer_of_mem hfaithful ha hfinite henough hedge
  have hpart := restricts_closureOf hfaithful ha hload hfinite henough hloaded
  -- the importer is the root of its own closure, which records the same broken imports of it
  have hown : edge ∈ (closureOf answer limit importer).failedImports.filter
      (·.importer = edge.importer) := by
    rw [hpart.failedImports_eq _ (hpart.mem_keys hloaded)]
    exact List.mem_filter.mpr ⟨hedge, decide_eq_true rfl⟩
  exact ⟨importer, declared, hload, hdeclared, htarget,
    importError_mem (List.mem_filter.mp hown).1 hpart.root_eq.symm hdeclared⟩

/-- **The closure of an imported file is a part of the closure of the root.** Take a loader whose
documents are those of the files it is asked for, and a root that has been loaded and whose closure
is complete. The closure of any file loaded there has the imports, documents and failures of the
file and of what it imports, and the same broken imports of each of its files. So whenever an import
of another file makes the root doubtful, then that file loads, and on its own it has an error with
the same target and reason at its import. -/
theorem closure_of_imported_file (answer : String → LoaderAnswer) (limit : Nat)
    (hfaithful : Faithful answer) {a : String} {rootA : Document}
    (ha : (answer a).result a = .ok rootA)
    (hfinite : {path | Reachable answer rootA none path}.Finite)
    (henough : {path | Reachable answer rootA none path}.ncard ≤ limit) :
    (∀ b rootB, (answer b).result b = .ok rootB →
      b ∈ (closureOf answer limit rootA).documents.map Prod.fst →
        Restricts (closureOf answer limit rootA) b (closureOf answer limit rootB)) ∧
    ∀ found ∈ Rule.brokenImports rootA (closureOf answer limit rootA), found.severity = .warning →
      ∃ edge ∈ (closureOf answer limit rootA).failedImports, edge.importer ≠ a ∧
        found = deepWarning rootA edge ∧
        ∃ importer declared, (answer edge.importer).result edge.importer = .ok importer ∧
          importer.imports[edge.index]? = some declared ∧
          Path.resolve declared.uri importer.directory = edge.target ∧
          importError importer edge declared ∈
            Rule.brokenImports importer (closureOf answer limit importer) := by
  refine ⟨fun b rootB hb => restricts_closureOf hfaithful ha hb hfinite henough, ?_⟩
  intro found hfound hwarning
  obtain ⟨edge, hedge, himporter, hshape⟩ := exists_deepWarning_of_mem hfound hwarning
  have hroot : (closureOf answer limit rootA).root = a := by
    have hgraph : ImportGraph answer rootA none (closureOf answer limit rootA) :=
      importGraph_resolve hfinite henough
    rw [hgraph.root_eq, normalize_sourcePath_of_loaded hfaithful ha]
  rw [hroot] at himporter
  exact ⟨edge, hedge, himporter, hshape,
    importError_mem_of_mem hfaithful ha hfinite henough hedge⟩

/-! ## A ring with a missing file -/

/-- A loader with two files that import each other; the second one also imports a missing file. -/
def ringAnswer (path : String) : LoaderAnswer :=
  if path = "/p/a.fidl" then
    .document { package := "a", sourcePath := "/p/a.fidl", imports := [{ uri := "b.fidl" }] }
  else if path = "/p/b.fidl" then
    .document
      { package := "b", sourcePath := "/p/b.fidl",
        imports := [{ uri := "a.fidl" }, { uri := "missing.fidl" }] }
  else .nothing

/-- The first of the two files. -/
def ringRoot : Document :=
  { package := "a", sourcePath := "/p/a.fidl", imports := [{ uri := "b.fidl" }] }

/-- The second of the two files. -/
def ringFile : Document :=
  { package := "b", sourcePath := "/p/b.fidl",
    imports := [{ uri := "a.fidl" }, { uri := "missing.fidl" }] }

/-- The two files are served under their own identifiers. -/
theorem faithful_ringAnswer : Faithful ringAnswer := by
  intro path document hload
  unfold ringAnswer at hload
  split at hload
  · subst path
    rw [← Except.ok.inj hload]
    decide
  · split at hload
    · subst path
      rw [← Except.ok.inj hload]
      decide
    · cases hload

/-- The closure of the second file is the part of that of the first one behind it, and the missing
file is a warning on the first and an error of the second. -/
theorem restricts_ring :
    Faithful ringAnswer ∧ (ringAnswer "/p/a.fidl").result "/p/a.fidl" = .ok ringRoot ∧
    {path | Reachable ringAnswer ringRoot none path}.Finite ∧
    {path | Reachable ringAnswer ringRoot none path}.ncard ≤ 3 ∧
    (ringAnswer "/p/b.fidl").result "/p/b.fidl" = .ok ringFile ∧
    Restricts (closureOf ringAnswer 3 ringRoot) "/p/b.fidl" (closureOf ringAnswer 3 ringFile) ∧
    ∃ edge importer declared,
      deepWarning ringRoot edge ∈ Rule.brokenImports ringRoot (closureOf ringAnswer 3 ringRoot) ∧
      importError importer edge declared ∈
        Rule.brokenImports importer (closureOf ringAnswer 3 importer) := by
  obtain ⟨hfinite, henough⟩ := finite_reachable_of_closed ringAnswer ringRoot none
    ["/p/a.fidl", "/p/b.fidl", "/p/missing.fidl"] (by decide) (by decide)
  have hroot : (ringAnswer "/p/a.fidl").result "/p/a.fidl" = .ok ringRoot := rfl
  have hfile : (ringAnswer "/p/b.fidl").result "/p/b.fidl" = .ok ringFile := rfl
  obtain ⟨hparts, hwarnings⟩ :=
    closure_of_imported_file ringAnswer 3 faithful_ringAnswer hroot hfinite henough
  have hfound : deepWarning ringRoot ⟨"/p/b.fidl", "/p/missing.fidl", "file not found", 1⟩ ∈
      Rule.brokenImports ringRoot (closureOf ringAnswer 3 ringRoot) := by decide
  obtain ⟨edge, -, -, hshape, importer, declared, -, -, -, herror⟩ := hwarnings _ hfound rfl
  rw [hshape] at hfound
  exact ⟨faithful_ringAnswer, hroot, hfinite, henough, hfile,
    hparts "/p/b.fidl" ringFile hfile (by decide), edge, importer, declared, hfound, herror⟩

end FrancaLint.Closure
