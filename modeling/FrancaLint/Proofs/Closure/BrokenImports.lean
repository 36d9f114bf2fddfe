import FrancaLint.Proofs.Closure.ImportGraph

/-! # The broken imports of a closure

A walk takes the files from its queue in the order in which it has loaded them, and visits all
imports of a file before those of the next one. So the broken imports that it records are those of
its files, file by file and in the order of declaration.

* `brokenImportsOf`, the broken imports of a file.
* `Walk.Listed`, the invariant of a walk: the files taken from the queue are the first ones of those
  recorded, and their broken imports are what has been recorded as broken.
* `failedImports_resolve`: the broken imports of a closure, and `filter_failedImports` those of one
  of its files. -/

namespace FrancaLint.Closure

variable (answer : String → LoaderAnswer) (root : Document) (directory : Option String)

/-- The record of an import whose target fails, none if the target has a document. -/
def brokenImport? (importer : String) (edge : String × Nat) : Option FailedImport :=
  (fileFailure? answer root edge.1).map fun reason => ⟨importer, edge.1, reason, edge.2⟩

/-- The **broken imports** of a file with some targets, in the order of its imports. -/
def brokenImportsOf (entry : String × List String) : List FailedImport :=
  entry.2.zipIdx.filterMap (brokenImport? answer root entry.1)

/-- A walk between two files is **listed** when it is sound and the files that have been taken from
the queue are the first ones recorded, with their broken imports. -/
structure Walk.Listed (walk : Walk) : Prop where
  /-- The walk is sound. -/
  sound : ∃ visited, walk.Sound answer root directory visited []
  /-- The recorded files are those taken from the queue and those in it. -/
  listed : ∃ visited, walk.found.imports = visited ++ walk.pending ∧
    walk.found.failedImports = visited.flatMap (brokenImportsOf answer root)

variable {answer root directory}

/-! ## Steps of a walk -/

variable {visited : Nat} {walk : Walk} {current : List String}

/-- Visiting one import records the same new files as found and as pending, and the import if it is
broken. -/
theorem Walk.Sound.visit_eq (importer : String) {target : String} (index : Nat)
    (h : walk.Sound answer root directory visited (target :: current)) :
    let after := (Closure.visit (Loader.ofFunction answer) importer walk (target, index)).run
    (∃ new, after.found.imports = walk.found.imports ++ new ∧ after.pending = walk.pending ++ new) ∧
      after.found.failedImports = walk.found.failedImports ++
        (brokenImport? answer root importer (target, index)).toList := by
  -- an import adds a file only if it loads now, and is broken if it fails now or failed before
  unfold Closure.visit brokenImport?
  dsimp only
  cases hfailed : walk.found.failed.lookup target with
  | some reason =>
    have hreason := (h.of_failed target reason (Graph.mem_of_lookup hfailed)).2
    rw [hreason]
    exact ⟨⟨[], by simp [Closure.addFailure], by simp⟩, rfl⟩
  | none =>
    dsimp only
    split
    · -- a file with a document does not fail
      rename_i hfound
      obtain ⟨⟨path, document⟩, hentry, heq⟩ := List.any_eq_true.mp hfound
      obtain rfl : path = target := by simpa using heq
      have hdocument := (h.of_documents _ document hentry).2
      have hnone : fileFailure? answer root path = none := by
        rw [Option.eq_none_iff_forall_ne_some]
        intro reason hreason
        rw [fileDocument?_eq_none_of_fileFailure? hreason] at hdocument
        cases hdocument
      rw [hnone]
      exact ⟨⟨[], by simp, by simp⟩, by simp⟩
    · rename_i hfound
      have hne : target ≠ Path.normalize root.sourcePath := by
        rintro rfl
        obtain ⟨entry, hentry, heq⟩ := List.mem_map.mp h.root_mem
        exact hfound (List.any_eq_true.mpr ⟨entry, hentry, by simp [heq]⟩)
      simp only [Id.run_bind, run_load_ofFunction]
      cases hresult : (answer target).result target with
      | error failure =>
        rw [fileFailure?_of_error hne hresult]
        exact ⟨⟨[], by simp [Closure.addFailure], by simp⟩, rfl⟩
      | ok document =>
        have hnone : fileFailure? answer root target = none := by
          simp [fileFailure?, hne, hresult]
        rw [hnone]
        exact ⟨⟨_, rfl, rfl⟩, by simp⟩

/-- Visiting the imports of a file records the same new files as found and as pending, and the
imports that are broken. -/
theorem Walk.Sound.visitAll_eq (importer : String) {edges : List (String × Nat)}
    (h : walk.Sound answer root directory visited (edges.map Prod.fst)) :
    let after := (edges.foldlM (Closure.visit (Loader.ofFunction answer) importer) walk).run
    (∃ new, after.found.imports = walk.found.imports ++ new ∧ after.pending = walk.pending ++ new) ∧
      after.found.failedImports =
        walk.found.failedImports ++ edges.filterMap (brokenImport? answer root importer) := by
  induction edges generalizing walk with
  | nil => exact ⟨⟨[], by simp, by simp⟩, by simp⟩
  | cons edge rest ih =>
    obtain ⟨target, index⟩ := edge
    obtain ⟨⟨new, himports, hpending⟩, hbroken⟩ := h.visit_eq importer index
    have hnext : Walk.Sound answer root directory visited
        (Closure.visit (Loader.ofFunction answer) importer walk (target, index)).run
        (rest.map Prod.fst) := h.visit
    obtain ⟨⟨new', himports', hpending'⟩, hbroken'⟩ := ih hnext
    rw [List.foldlM_cons, Id.run_bind]
    refine ⟨⟨new ++ new', ?_, ?_⟩, ?_⟩
    · rw [himports', himports, List.append_assoc]
    · rw [hpending', hpending, List.append_assoc]
    · rw [hbroken', hbroken, List.append_assoc, List.filterMap_cons]
      cases brokenImport? answer root importer (target, index) <;> rfl

/-- Visiting pending files keeps a walk listed, however many of them are visited. -/
theorem Walk.Listed.visitPending {walk : Walk} (h : walk.Listed answer root directory)
    (limit : Nat) :
    Walk.Listed answer root directory
      (Closure.visitPending (Loader.ofFunction answer) limit walk).run := by
  -- on the limit: the file that is taken from the queue is the next one of those visited
  induction limit generalizing walk with
  | zero => exact h
  | succ limit ih =>
    unfold Closure.visitPending
    cases hpending : walk.pending with
    | nil => exact h
    | cons entry rest =>
      obtain ⟨importer, targets⟩ := entry
      obtain ⟨visited, hsound⟩ := h.sound
      obtain ⟨taken, himports, hbroken⟩ := h.listed
      have hnext : Walk.Sound answer root directory (visited + 1) { walk with pending := rest }
          (targets.zipIdx.map Prod.fst) := by
        rw [List.zipIdx_map_fst]
        exact hsound.next hpending
      obtain ⟨⟨new, himports', hpending'⟩, hbroken'⟩ :=
        hnext.visitAll_eq importer
      rw [Id.run_bind]
      refine ih ⟨⟨visited + 1, hnext.visitAll⟩, taken ++ [(importer, targets)], ?_, ?_⟩
      · rw [himports', hpending', himports, hpending]
        simp
      · rw [hbroken', hbroken, List.flatMap_append, List.flatMap_singleton]
        rfl

/-- The walk that has found nothing but the root is listed. -/
theorem listed_start (answer : String → LoaderAnswer) (root : Document)
    (directory : Option String) : (start root directory).Listed answer root directory where
  sound := ⟨0, sound_start answer root directory⟩
  listed := ⟨[], rfl, rfl⟩

/-! ## The closure of a root -/

/-- The documents of a closure, complete or not, are those of reachable files. -/
theorem of_mem_documents_resolve {limit : Nat} {path : String} {document : Document}
    (h : (path, document) ∈
      (resolve (Loader.ofFunction answer) limit root directory).run.documents) :
    Reachable answer root directory path ∧ fileDocument? answer root path = some document := by
  obtain ⟨visited, hsound⟩ := ((listed_start answer root directory).visitPending limit).sound
  exact hsound.of_documents path document h

/-- The broken imports of a closure that is complete are those of its files, in the order of the
files. -/
theorem failedImports_resolve {limit : Nat}
    (hfinite : {path | Reachable answer root directory path}.Finite)
    (henough : {path | Reachable answer root directory path}.ncard ≤ limit) :
    let closure := (resolve (Loader.ofFunction answer) limit root directory).run
    closure.failedImports = closure.imports.flatMap (brokenImportsOf answer root) := by
  rw [← Nat.zero_add limit] at henough
  have hpending := ((sound_start answer root directory).visitPending hfinite henough).1
  obtain ⟨visited, himports, hbroken⟩ :=
    ((listed_start answer root directory).visitPending limit).listed
  rw [hpending, List.append_nil] at himports
  rw [← himports] at hbroken
  exact hbroken

/-- The broken imports of a file have that file as importer. -/
theorem importer_of_mem_brokenImportsOf {entry : String × List String} {edge : FailedImport}
    (h : edge ∈ brokenImportsOf answer root entry) : edge.importer = entry.1 := by
  obtain ⟨⟨target, index⟩, -, hbroken⟩ := List.mem_filterMap.mp h
  obtain ⟨reason, -, rfl⟩ := Option.map_eq_some_iff.mp hbroken
  rfl

/-- Where every file is recorded once, the broken imports of a file are those that are recorded with
it as importer. -/
theorem filter_flatMap_brokenImportsOf (answer : String → LoaderAnswer) (root : Document)
    {imports : List (String × List String)}
    (hnodup : (imports.map Prod.fst).Nodup) {entry : String × List String}
    (hentry : entry ∈ imports) :
    (imports.flatMap (brokenImportsOf answer root)).filter (·.importer == entry.1) =
      brokenImportsOf answer root entry := by
  induction imports with
  | nil => exact absurd hentry List.not_mem_nil
  | cons first rest ih =>
    rw [List.map_cons, List.nodup_cons] at hnodup
    rw [List.flatMap_cons, List.filter_append]
    rcases List.mem_cons.mp hentry with rfl | hentry
    · -- the other files have other identifiers
      have hrest : (rest.flatMap (brokenImportsOf answer root)).filter
          (·.importer == entry.1) = [] := by
        rw [List.filter_eq_nil_iff]
        intro edge hedge heq
        obtain ⟨other, hother, hbroken⟩ := List.mem_flatMap.mp hedge
        rw [importer_of_mem_brokenImportsOf hbroken, beq_iff_eq] at heq
        exact hnodup.1 (List.mem_map.mpr ⟨other, hother, heq⟩)
      rw [hrest, List.append_nil, List.filter_eq_self]
      intro edge hedge
      rw [importer_of_mem_brokenImportsOf hedge, beq_self_eq_true]
    · have hfirst : (brokenImportsOf answer root first).filter (·.importer == entry.1) = [] := by
        rw [List.filter_eq_nil_iff]
        intro edge hedge heq
        rw [importer_of_mem_brokenImportsOf hedge, beq_iff_eq] at heq
        exact hnodup.1 (List.mem_map.mpr ⟨entry, hentry, heq.symm⟩)
      rw [hfirst, List.nil_append, ih hnodup.2 hentry]

end FrancaLint.Closure
