import FrancaLint.Closure
import FrancaLint.Proofs.Graph.Reachability
import Mathlib.Data.Set.Card

/-! # Walks along imports

What a root document imports, directly or through other files, does not depend on how the files are
visited. This file says which files these are and what every step of a walk preserves.

* `Reachable`, the least set of files that holds the root and the targets of every loaded member.
* `Walk.Sound`, the invariant of a walk, with `sound_start`, `Walk.Sound.visit` and
  `Walk.Sound.next` for its steps.
* `Walk.Sound.visitPending`: a walk that may visit as many files as are reachable comes to an
  end. -/

namespace FrancaLint.Closure

open Relation

variable (answer : String → LoaderAnswer) (root : Document) (directory : Option String)

/-! ## Files and their imports -/

/-- The document of a file: the root under its own identifier, or else what the loader answers. -/
def fileDocument? (path : String) : Option Document :=
  if path = Path.normalize root.sourcePath then some root
  else
    match (answer path).result path with
    | .ok document => some document
    | .error _ => none

/-- The reason why a file other than the root has no document. -/
def fileFailure? (path : String) : Option String :=
  if path = Path.normalize root.sourcePath then none
  else
    match (answer path).result path with
    | .ok _ => none
    | .error failure => some failure.reason

/-- The directory that the imports of a file are relative to. -/
def fileDirectory (path : String) : String :=
  if path = Path.normalize root.sourcePath then rootDirectory root directory
  else Path.directory path

/-- The targets of the imports of a file; a file without a document has none. -/
def fileTargets (path : String) : List String :=
  match fileDocument? answer root path with
  | some document => document.importTargets (fileDirectory root directory path)
  | none => []

/-- The **reachable** files: the root, and the targets of every file with a document. -/
inductive Reachable : String → Prop where
  /-- The root itself. -/
  | root : Reachable (Path.normalize root.sourcePath)
  /-- A target of a reachable file. -/
  | target {importer target : String} (reached : Reachable importer)
      (imported : target ∈ fileTargets answer root directory importer) : Reachable target

variable {answer root directory}

/-- Asking a loader without effects gives the document or failure that its answer stands for. -/
@[simp] theorem run_load_ofFunction (path : String) :
    ((Loader.ofFunction answer).load path).run = (answer path).result path := by
  cases hanswer : answer path <;> simp [Loader.load, Loader.ofFunction, hanswer]

/-- The root has its own document. -/
@[simp] theorem fileDocument?_root :
    fileDocument? answer root (Path.normalize root.sourcePath) = some root := by
  simp [fileDocument?]

/-- The imports of the root are relative to its own directory or the given one. -/
@[simp] theorem fileTargets_root :
    fileTargets answer root directory (Path.normalize root.sourcePath) =
      root.importTargets (rootDirectory root directory) := by
  simp [fileTargets, fileDirectory]

/-- A loaded file other than the root has the document that the loader answers. -/
theorem fileDocument?_of_ok {path : String} {document : Document}
    (hne : path ≠ Path.normalize root.sourcePath) (hok : (answer path).result path = .ok document) :
    fileDocument? answer root path = some document := by
  simp [fileDocument?, hne, hok]

/-- The imports of a loaded file other than the root are relative to the directory of the file. -/
theorem fileTargets_of_ok {path : String} {document : Document}
    (hne : path ≠ Path.normalize root.sourcePath) (hok : (answer path).result path = .ok document) :
    fileTargets answer root directory path =
      document.importTargets (Path.directory path) := by
  simp [fileTargets, fileDocument?_of_ok hne hok, fileDirectory, hne]

/-- A file other than the root fails with the reason that the loader answers. -/
theorem fileFailure?_of_error {path : String} {failure : LoadFailure}
    (hne : path ≠ Path.normalize root.sourcePath)
    (herror : (answer path).result path = .error failure) :
    fileFailure? answer root path = some failure.reason := by
  simp [fileFailure?, hne, herror]

/-- A file has a document if it is the root or loads. -/
theorem fileDocument?_eq_some_iff {path : String} {document : Document} :
    fileDocument? answer root path = some document ↔
      path = Path.normalize root.sourcePath ∧ document = root ∨
        path ≠ Path.normalize root.sourcePath ∧ (answer path).result path = .ok document := by
  unfold fileDocument?
  by_cases hroot : path = Path.normalize root.sourcePath
  · simp [hroot, eq_comm]
  · cases hresult : (answer path).result path <;> simp [hroot]

/-- A file has a reason if it is not the root and fails. -/
theorem fileFailure?_eq_some_iff {path reason : String} :
    fileFailure? answer root path = some reason ↔
      path ≠ Path.normalize root.sourcePath ∧
        ∃ failure, (answer path).result path = .error failure ∧ failure.reason = reason := by
  unfold fileFailure?
  by_cases hroot : path = Path.normalize root.sourcePath
  · simp [hroot]
  · cases hresult : (answer path).result path <;> simp [hroot]

/-- Every file has a document or a reason why it has none. -/
theorem fileDocument?_or_fileFailure? (answer : String → LoaderAnswer) (root : Document)
    (path : String) :
    (∃ document, fileDocument? answer root path = some document) ∨
      ∃ reason, fileFailure? answer root path = some reason := by
  unfold fileDocument? fileFailure?
  split
  · exact Or.inl ⟨root, rfl⟩
  · split
    · exact Or.inl ⟨_, rfl⟩
    · exact Or.inr ⟨_, rfl⟩

/-- No file has both a document and a reason why it has none. -/
theorem fileDocument?_eq_none_of_fileFailure? {path reason : String}
    (h : fileFailure? answer root path = some reason) : fileDocument? answer root path = none := by
  unfold fileFailure? at h
  unfold fileDocument?
  split at h
  · simp at h
  · rename_i hne
    rw [if_neg hne]
    split at h <;> simp_all

/-- A file with an import has a document. -/
theorem exists_fileDocument?_of_mem_fileTargets {path target : String}
    (h : target ∈ fileTargets answer root directory path) :
    ∃ document, fileDocument? answer root path = some document := by
  cases hdoc : fileDocument? answer root path with
  | none => simp [fileTargets, hdoc] at h
  | some document => exact ⟨document, rfl⟩

/-- Files that hold the root and the targets of each other are all that is reachable. -/
theorem finite_reachable_of_closed (answer : String → LoaderAnswer) (root : Document)
    (directory : Option String) (files : List String)
    (hroot : Path.normalize root.sourcePath ∈ files)
    (hclosed : ∀ importer ∈ files, ∀ target ∈ fileTargets answer root directory importer,
      target ∈ files) :
    {path | Reachable answer root directory path}.Finite ∧
      {path | Reachable answer root directory path}.ncard ≤ files.length := by
  have hsubset : {path | Reachable answer root directory path} ⊆
      (↑files.toFinset : Set String) := by
    intro path hreach
    rw [Finset.mem_coe, List.mem_toFinset]
    induction hreach with
    | root => exact hroot
    | target _ imported ih => exact hclosed _ ih _ imported
  refine ⟨(Finset.finite_toSet _).subset hsubset, ?_⟩
  refine (Set.ncard_le_ncard hsubset (Finset.finite_toSet _)).trans ?_
  rw [Set.ncard_coe_finset]
  exact List.toFinset_card_le files

/-! ## What a walk preserves -/

/-- The walk has a document for the file, or knows that it failed. -/
def Walk.Knows (walk : Walk) (path : String) : Prop :=
  path ∈ walk.found.documents.map Prod.fst ∨ path ∈ walk.found.failed.map Prod.fst

section Known

variable {walk : Walk} {target : String}

/-- A file that has failed is known. -/
theorem Walk.knows_of_lookup {reason : String}
    (h : walk.found.failed.lookup target = some reason) : walk.Knows target :=
  Or.inr (List.mem_map.mpr ⟨_, Graph.mem_of_lookup h, rfl⟩)

/-- A file that has been found is known. -/
theorem Walk.knows_of_any (h : walk.found.documents.any (·.1 == target) = true) :
    walk.Knows target := by
  obtain ⟨entry, hentry, heq⟩ := List.any_eq_true.mp h
  exact Or.inl (List.mem_map.mpr ⟨entry, hentry, by simpa using heq⟩)

/-- Any other file is not known. -/
theorem Walk.not_knows (hfailed : walk.found.failed.lookup target = none)
    (hfound : ¬ walk.found.documents.any (·.1 == target) = true) : ¬ walk.Knows target := by
  rintro (hmem | hmem)
  · obtain ⟨entry, hentry, heq⟩ := List.mem_map.mp hmem
    exact hfound (List.any_eq_true.mpr ⟨entry, hentry, by simp [heq]⟩)
  · obtain ⟨entry, hentry, heq⟩ := List.mem_map.mp hmem
    have := List.lookup_eq_none_iff.mp hfailed entry hentry
    simp [heq] at this

end Known

variable (answer root directory)

/-- A walk is **sound** when what it has found belongs to the import graph and every import that it
has not followed yet is still to be visited: it belongs to a pending file or to `current`, the
targets that are left of the file being visited. `visited` counts the files taken from the queue. -/
structure Walk.Sound (visited : Nat) (walk : Walk) (current : List String) : Prop where
  /-- The root keeps its identifier. -/
  root_eq : walk.found.root = Path.normalize root.sourcePath
  /-- The root is among the documents. -/
  root_mem : Path.normalize root.sourcePath ∈ walk.found.documents.map Prod.fst
  /-- Documents and imports are recorded for the same files. -/
  keys_eq : walk.found.imports.map Prod.fst = walk.found.documents.map Prod.fst
  /-- No file has two documents. -/
  documents_nodup : (walk.found.documents.map Prod.fst).Nodup
  /-- No file fails twice. -/
  failed_nodup : (walk.found.failed.map Prod.fst).Nodup
  /-- Every document is that of a reachable file. -/
  of_documents : ∀ path document, (path, document) ∈ walk.found.documents →
    Reachable answer root directory path ∧ fileDocument? answer root path = some document
  /-- Every failure is that of a reachable file. -/
  of_failed : ∀ path reason, (path, reason) ∈ walk.found.failed →
    Reachable answer root directory path ∧ fileFailure? answer root path = some reason
  /-- The recorded targets of a file are all of its targets. -/
  of_imports : ∀ path targets, (path, targets) ∈ walk.found.imports →
    targets = fileTargets answer root directory path
  /-- Only reachable files are still to be visited. -/
  of_pending : ∀ entry ∈ walk.pending, ∀ target ∈ entry.2, Reachable answer root directory target
  /-- Only reachable files are left of the file being visited. -/
  of_current : ∀ target ∈ current, Reachable answer root directory target
  /-- A recorded target is known or still to be visited. -/
  covers : ∀ path targets, (path, targets) ∈ walk.found.imports → ∀ target ∈ targets,
    walk.Knows target ∨ target ∈ current ∨ ∃ entry ∈ walk.pending, target ∈ entry.2
  /-- Every document has been taken from the queue or is in it. -/
  length_eq : walk.found.documents.length = visited + walk.pending.length

variable {answer root directory}

namespace Walk.Sound

variable {visited : Nat} {walk : Walk} {current : List String}

/-- A file that has a document is reachable. -/
theorem reachable_of_mem (h : walk.Sound answer root directory visited current) {path : String}
    (hmem : path ∈ walk.found.documents.map Prod.fst) : Reachable answer root directory path := by
  obtain ⟨⟨_, document⟩, hentry, rfl⟩ := List.mem_map.mp hmem
  exact (h.of_documents _ document hentry).1

/-- A target that is known needs no visit. -/
theorem skip {target : String} (h : walk.Sound answer root directory visited (target :: current))
    (hknown : walk.Knows target) : walk.Sound answer root directory visited current :=
  { h with
    of_current := fun t ht => h.of_current t (List.mem_cons_of_mem _ ht)
    covers := by
      intro path targets hmem t ht
      rcases h.covers path targets hmem t ht with hk | hc | hp
      · exact Or.inl hk
      · rcases List.mem_cons.mp hc with rfl | hc
        · exact Or.inl hknown
        · exact Or.inr (Or.inl hc)
      · exact Or.inr (Or.inr hp) }

/-- Recording one more broken import changes nothing else. -/
theorem addFailure (h : walk.Sound answer root directory visited current) (edge : FailedImport) :
    Walk.Sound answer root directory visited { walk with found := walk.found.addFailure edge }
      current :=
  { h with }

/-- A target that fails is recorded as failed. -/
theorem fail {target : String} {failure : LoadFailure}
    (h : walk.Sound answer root directory visited (target :: current))
    (hunknown : ¬ walk.Knows target) (herror : (answer target).result target = .error failure) :
    Walk.Sound answer root directory visited
      { walk with found := { walk.found with
          failed := walk.found.failed ++ [(target, failure.reason)] } } current := by
  have hnew : target ∉ walk.found.failed.map Prod.fst := fun hmem => hunknown (Or.inr hmem)
  have hne : target ≠ Path.normalize root.sourcePath := by
    rintro rfl
    exact hunknown (Or.inl h.root_mem)
  have hreach := h.of_current target List.mem_cons_self
  have hfailure := fileFailure?_of_error hne herror
  constructor
  case root_eq => exact h.root_eq
  case root_mem => exact h.root_mem
  case keys_eq => exact h.keys_eq
  case documents_nodup => exact h.documents_nodup
  case failed_nodup =>
    -- the target is asked for only because it has not failed before
    simp only [List.map_append, List.map_cons, List.map_nil]
    rw [← List.concat_eq_append]
    exact h.failed_nodup.concat hnew
  case of_documents => exact h.of_documents
  case of_failed =>
    intro path reason hmem
    rcases List.mem_append.mp hmem with hmem | hmem
    · exact h.of_failed path reason hmem
    · rw [List.mem_singleton, Prod.mk.injEq] at hmem
      obtain ⟨rfl, rfl⟩ := hmem
      exact ⟨hreach, hfailure⟩
  case of_imports => exact h.of_imports
  case of_pending => exact h.of_pending
  case of_current => exact fun t ht => h.of_current t (List.mem_cons_of_mem _ ht)
  case covers =>
    intro path targets hmem t ht
    -- a target that was to be visited now is the one that has failed, or is still to be visited
    rcases h.covers path targets hmem t ht with (hk | hk) | hc | hp
    · exact Or.inl (Or.inl hk)
    · exact Or.inl (Or.inr (by simp [hk]))
    · rcases List.mem_cons.mp hc with rfl | hc
      · exact Or.inl (Or.inr (by simp))
      · exact Or.inr (Or.inl hc)
    · exact Or.inr (Or.inr hp)
  case length_eq => exact h.length_eq

/-- A target that loads is recorded with its imports, which are then pending. -/
theorem load {target : String} {document : Document}
    (h : walk.Sound answer root directory visited (target :: current))
    (hunknown : ¬ walk.Knows target) (hok : (answer target).result target = .ok document) :
    Walk.Sound answer root directory visited
      { found := { walk.found with
          documents := walk.found.documents ++ [(target, document)]
          imports := walk.found.imports ++
            [(target, document.importTargets (Path.directory target))] }
        pending := walk.pending ++
          [(target, document.importTargets (Path.directory target))] } current := by
  have hnew : target ∉ walk.found.documents.map Prod.fst := fun hmem => hunknown (Or.inl hmem)
  have hne : target ≠ Path.normalize root.sourcePath := by
    rintro rfl
    exact hnew h.root_mem
  have hreach := h.of_current target List.mem_cons_self
  have hdocument := fileDocument?_of_ok hne hok
  have htargets : fileTargets answer root directory target =
      document.importTargets (Path.directory target) := fileTargets_of_ok hne hok
  constructor
  case root_eq => exact h.root_eq
  case root_mem => simp [h.root_mem]
  case keys_eq => simp [h.keys_eq]
  case documents_nodup =>
    simp only [List.map_append, List.map_cons, List.map_nil]
    rw [← List.concat_eq_append]
    exact h.documents_nodup.concat hnew
  case failed_nodup => exact h.failed_nodup
  case of_documents =>
    intro path d hmem
    rcases List.mem_append.mp hmem with hmem | hmem
    · exact h.of_documents path d hmem
    · rw [List.mem_singleton, Prod.mk.injEq] at hmem
      obtain ⟨rfl, rfl⟩ := hmem
      exact ⟨hreach, hdocument⟩
  case of_failed => exact h.of_failed
  case of_imports =>
    intro path targets hmem
    rcases List.mem_append.mp hmem with hmem | hmem
    · exact h.of_imports path targets hmem
    · rw [List.mem_singleton, Prod.mk.injEq] at hmem
      obtain ⟨rfl, rfl⟩ := hmem
      exact htargets.symm
  case of_pending =>
    -- the new entry has the targets of a reachable file
    intro entry hmem t ht
    rcases List.mem_append.mp hmem with hmem | hmem
    · exact h.of_pending entry hmem t ht
    · rw [List.mem_singleton.mp hmem, ← htargets] at ht
      exact .target hreach ht
  case of_current => exact fun t ht => h.of_current t (List.mem_cons_of_mem _ ht)
  case covers =>
    intro path targets hmem t ht
    rcases List.mem_append.mp hmem with hmem | hmem
    · rcases h.covers path targets hmem t ht with (hk | hk) | hc | ⟨entry, hentry, hp⟩
      · exact Or.inl (Or.inl (by simp [hk]))
      · exact Or.inl (Or.inr hk)
      · rcases List.mem_cons.mp hc with rfl | hc
        · exact Or.inl (Or.inl (by simp))
        · exact Or.inr (Or.inl hc)
      · exact Or.inr (Or.inr ⟨entry, List.mem_append_left _ hentry, hp⟩)
    · -- the targets of the file itself are pending from now on
      rw [List.mem_singleton, Prod.mk.injEq] at hmem
      obtain ⟨rfl, rfl⟩ := hmem
      exact Or.inr (Or.inr ⟨_, List.mem_append_right _ List.mem_cons_self, ht⟩)
  case length_eq =>
    simp only [List.length_append, List.length_singleton, h.length_eq]
    omega

/-- Visiting one import keeps a walk sound. -/
theorem visit {importer target : String} {index : Nat}
    (h : walk.Sound answer root directory visited (target :: current)) :
    Walk.Sound answer root directory visited
      (Closure.visit (Loader.ofFunction answer) importer walk (target, index)).run current := by
  -- the four ways of a visit: failed before, found before, fails now, loads now
  unfold Closure.visit
  dsimp only
  cases hfailed : walk.found.failed.lookup target with
  | some reason => exact (h.skip (Walk.knows_of_lookup hfailed)).addFailure _
  | none =>
    dsimp only
    split
    · rename_i hfound
      exact h.skip (Walk.knows_of_any hfound)
    · rename_i hfound
      have hunknown : ¬ walk.Knows target := Walk.not_knows hfailed hfound
      simp only [Id.run_bind, run_load_ofFunction]
      cases hresult : (answer target).result target with
      | error failure => exact (h.fail hunknown hresult).addFailure _
      | ok document => exact h.load hunknown hresult

/-- Visiting the imports of a file one after the other keeps a walk sound. -/
theorem visitAll {importer : String} {edges : List (String × Nat)}
    (h : walk.Sound answer root directory visited (edges.map Prod.fst)) :
    Walk.Sound answer root directory visited
      (edges.foldlM (Closure.visit (Loader.ofFunction answer) importer) walk).run [] := by
  induction edges generalizing walk with
  | nil => exact h
  | cons edge rest ih =>
    rw [List.foldlM_cons, Id.run_bind]
    exact ih h.visit

/-- Taking a file from the queue keeps a walk sound: its targets are the ones to visit now. -/
theorem next {importer : String} {targets : List String} {rest : List (String × List String)}
    (h : walk.Sound answer root directory visited [])
    (hpending : walk.pending = (importer, targets) :: rest) :
    Walk.Sound answer root directory (visited + 1) { walk with pending := rest } targets where
  root_eq := h.root_eq
  root_mem := h.root_mem
  keys_eq := h.keys_eq
  documents_nodup := h.documents_nodup
  failed_nodup := h.failed_nodup
  of_documents := h.of_documents
  of_failed := h.of_failed
  of_imports := h.of_imports
  of_pending := by
    intro entry hmem
    exact h.of_pending entry (by rw [hpending]; exact List.mem_cons_of_mem _ hmem)
  of_current := h.of_pending (importer, targets) (by rw [hpending]; exact List.mem_cons_self)
  covers := by
    intro path recorded hmem t ht
    rcases h.covers path recorded hmem t ht with hk | hc | ⟨entry, hentry, hp⟩
    · exact Or.inl hk
    · exact absurd hc List.not_mem_nil
    · -- the targets of the entry that is taken are now the current ones
      rw [hpending] at hentry
      rcases List.mem_cons.mp hentry with rfl | hentry
      · exact Or.inr (Or.inl hp)
      · exact Or.inr (Or.inr ⟨entry, hentry, hp⟩)
  length_eq := by
    rw [h.length_eq, hpending, List.length_cons]
    show visited + (rest.length + 1) = visited + 1 + rest.length
    omega

/-- The documents of a sound walk belong to different reachable files. -/
theorem length_documents_le (h : walk.Sound answer root directory visited current)
    (hfinite : {path | Reachable answer root directory path}.Finite) :
    walk.found.documents.length ≤ {path | Reachable answer root directory path}.ncard := by
  have hsubset : (↑(walk.found.documents.map Prod.fst).toFinset : Set String) ⊆
      {path | Reachable answer root directory path} := by
    intro path hmem
    exact h.reachable_of_mem (by simpa using hmem)
  calc walk.found.documents.length
      = (walk.found.documents.map Prod.fst).toFinset.card := by
        rw [List.toFinset_card_of_nodup h.documents_nodup, List.length_map]
    _ = (↑(walk.found.documents.map Prod.fst).toFinset : Set String).ncard :=
        (Set.ncard_coe_finset _).symm
    _ ≤ _ := Set.ncard_le_ncard hsubset hfinite

/-- A walk that may visit as many files as are reachable ends with an empty queue, and soundly. -/
theorem visitPending {limit : Nat} (h : walk.Sound answer root directory visited [])
    (hfinite : {path | Reachable answer root directory path}.Finite)
    (henough : {path | Reachable answer root directory path}.ncard ≤ visited + limit) :
    let ended := (Closure.visitPending (Loader.ofFunction answer) limit walk).run
    ended.pending = [] ∧ ∃ visited, ended.Sound answer root directory visited [] := by
  -- on the files that may still be visited: each of them is one more reachable file
  induction limit generalizing visited walk with
  | zero =>
    have hlength := h.length_eq
    have hle := h.length_documents_le hfinite
    have hnil : walk.pending = [] := List.length_eq_zero_iff.mp (by omega)
    exact ⟨hnil, visited, h⟩
  | succ limit ih =>
    unfold Closure.visitPending
    cases hpending : walk.pending with
    | nil => exact ⟨hpending, visited, h⟩
    | cons entry rest =>
      have hnext : Walk.Sound answer root directory (visited + 1) { walk with pending := rest }
          (entry.2.zipIdx.map Prod.fst) := by
        rw [List.zipIdx_map_fst]
        exact h.next hpending
      rw [Id.run_bind]
      exact ih hnext.visitAll (by omega)

end Walk.Sound

/-- The walk that has found nothing but the root is sound. -/
theorem sound_start (answer : String → LoaderAnswer) (root : Document)
    (directory : Option String) :
    (start root directory).Sound answer root directory 0 [] where
  root_eq := rfl
  root_mem := List.mem_cons_self
  keys_eq := rfl
  documents_nodup := List.nodup_singleton _
  failed_nodup := List.nodup_nil
  of_documents := by
    intro path document hmem
    have heq := Prod.mk.inj (List.mem_singleton.mp hmem)
    rw [heq.1, heq.2]
    exact ⟨.root, fileDocument?_root⟩
  of_failed := fun path reason hmem => absurd hmem List.not_mem_nil
  of_imports := by
    intro path targets hmem
    have heq := Prod.mk.inj (List.mem_singleton.mp hmem)
    rw [heq.1, heq.2, fileTargets_root]
  of_pending := by
    intro entry hmem target htarget
    rw [List.mem_singleton.mp hmem] at htarget
    exact .target .root (by rwa [fileTargets_root])
  of_current := fun target hmem => absurd hmem List.not_mem_nil
  covers := by
    intro path targets hmem target htarget
    exact Or.inr (Or.inr ⟨(path, targets), hmem, htarget⟩)
  length_eq := rfl

end FrancaLint.Closure
