import FrancaLint.Closure
import FrancaLint.Proofs.Loader.Keeps

/-! # Failed imports of the root

Whatever a loader answers, a closure that is resolved with it names its root, and an import of the
root that it records as failed has a position among the imports of the root. No loaded file can be
mistaken for the root: its imports are visited first, and it is never loaded.

* `Walk.RootIndexed`, the invariant of a walk; `keeps_visit` and `keeps_visitPending` keep it.
* `keeps_resolve`: what it means for the closure of a root. -/

namespace FrancaLint.Closure

variable {σ : Type}

/-- The imports of a file with some identifier that a walk has recorded as failed, or has still to
visit, have positions below a number; the identifier is that of the root. -/
structure Walk.RootIndexed (path : String) (count : Nat) (walk : Walk) : Prop where
  /-- The root has the identifier. -/
  root_eq : walk.found.root = path
  /-- The root has been found. -/
  found : ∃ file ∈ walk.found.documents, file.1 = path
  /-- Failed imports of the root have positions below the number. -/
  failed : ∀ edge ∈ walk.found.failedImports, edge.importer = path → edge.index < count
  /-- So have the imports of the root that are still to be visited. -/
  pending : ∀ entry ∈ walk.pending, entry.1 = path → entry.2.length ≤ count

namespace Walk.RootIndexed

variable {path : String} {count : Nat} {walk : Walk}

/-- One more failed import keeps the invariant if its position does. -/
theorem addFailure (h : walk.RootIndexed path count) {edge : FailedImport}
    (hedge : edge.importer = path → edge.index < count) (failed : List (String × String)) :
    Walk.RootIndexed path count
      { walk with found := addFailure { walk.found with failed := failed } edge } where
  root_eq := h.root_eq
  found := h.found
  failed := by
    intro other hother
    rcases List.mem_append.mp hother with hother | hother
    · exact h.failed other hother
    · rw [List.mem_singleton.mp hother]
      exact hedge
  pending := h.pending

/-- One more file keeps the invariant: it is not the root. -/
theorem addFile (h : walk.RootIndexed path count) {target : String} (hnew : target ≠ path)
    (document : Document) (targets : List String) :
    Walk.RootIndexed path count {
      found := { walk.found with
        documents := walk.found.documents ++ [(target, document)]
        imports := walk.found.imports ++ [(target, targets)] }
      pending := walk.pending ++ [(target, targets)] } where
  root_eq := h.root_eq
  found := by
    obtain ⟨file, hfile, heq⟩ := h.found
    exact ⟨file, List.mem_append_left _ hfile, heq⟩
  failed := h.failed
  pending := by
    intro entry hentry
    rcases List.mem_append.mp hentry with hentry | hentry
    · exact h.pending entry hentry
    · rw [List.mem_singleton.mp hentry]
      exact fun heq => absurd heq hnew

/-- Taking a file from the queue keeps the invariant. -/
theorem next (h : walk.RootIndexed path count) {entry : String × List String}
    {rest : List (String × List String)} (hpending : walk.pending = entry :: rest) :
    Walk.RootIndexed path count { walk with pending := rest } where
  root_eq := h.root_eq
  found := h.found
  failed := h.failed
  pending := fun other hother =>
    h.pending other (by rw [hpending]; exact List.mem_cons_of_mem _ hother)

end Walk.RootIndexed

variable {loader : Loader (StateM σ)} {path : String} {count : Nat} {walk : Walk}

/-- Visiting an import keeps the invariant if its position does. -/
theorem keeps_visit {importer : String} {edge : String × Nat} (h : walk.RootIndexed path count)
    (hedge : importer = path → edge.2 < count) :
    Keeps (fun _ => True) (visit loader importer walk edge) (Walk.RootIndexed path count) := by
  unfold visit
  dsimp only
  cases walk.found.failed.lookup edge.1 with
  | some reason => exact .pure (h.addFailure hedge walk.found.failed)
  | none =>
    dsimp only
    split
    · exact .pure h
    · rename_i hnew
      have hne : edge.1 ≠ path := by
        obtain ⟨file, hfile, hroot⟩ := h.found
        rintro rfl
        exact hnew (List.any_eq_true.mpr ⟨file, hfile, beq_iff_eq.mpr hroot⟩)
      refine (Keeps.any _).bind fun result _ => ?_
      cases result with
      | error failure => exact (Keeps.any _).bind fun _ _ => .pure (h.addFailure hedge _)
      | ok document => exact (Keeps.any _).bind fun _ _ => .pure (h.addFile hne document _)

/-- Visiting pending files keeps the invariant. -/
theorem keeps_visitPending {limit : Nat} (h : walk.RootIndexed path count) :
    Keeps (fun _ => True) (visitPending loader limit walk) (Walk.RootIndexed path count) := by
  induction limit generalizing walk with
  | zero => exact .pure h
  | succ limit ih =>
    unfold visitPending
    cases hpending : walk.pending with
    | nil => exact .pure h
    | cons entry rest =>
      have hcount : entry.1 = path → entry.2.length ≤ count :=
        h.pending entry (by rw [hpending]; exact List.mem_cons_self)
      refine Keeps.bind (Keeps.foldlM ?_ (h.next hpending)) fun after hafter => ih hafter
      intro edge hedge before hbefore
      refine keeps_visit hbefore fun heq => ?_
      -- positions are counted from zero along the targets
      have hindex := List.snd_lt_of_mem_zipIdx hedge
      exact Nat.lt_of_lt_of_le hindex (hcount heq)

/-- A closure names its root, and the failed imports of the root have positions among its
imports. -/
theorem keeps_resolve (limit : Nat) (root : Document) (directory : Option String) :
    Keeps (fun _ => True) (resolve loader limit root directory) fun closure =>
      closure.root = Path.normalize root.sourcePath ∧
        ∀ edge ∈ closure.failedImports, edge.importer = closure.root →
          edge.index < root.imports.length := by
  have hstart : (start root directory).RootIndexed (Path.normalize root.sourcePath)
      root.imports.length := by
    refine ⟨rfl, ⟨_, List.mem_cons_self, rfl⟩, fun edge hedge => absurd hedge List.not_mem_nil, ?_⟩
    refine List.forall_mem_singleton.mpr fun _ => ?_
    exact Nat.le_of_eq (List.length_map _)
  refine (keeps_visitPending hstart).bind fun walk hwalk => .pure ⟨hwalk.root_eq, ?_⟩
  intro edge hedge himporter
  exact hwalk.failed edge hedge (himporter.trans hwalk.root_eq)

end FrancaLint.Closure
