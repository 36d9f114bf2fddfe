import FrancaLint.Proofs.Loader.Keeps
import FrancaLint.Proofs.Validation.Report

/-! # Loaders that answer like a function

A loader with a state of its own may answer like a function without effects: what it has been asked
before makes no difference. Then every run with it gives what the same run gives with the function.

* `Loader.Answers`, a loader that answers like a function wherever an invariant of its state holds.
* `Answers.resolve`, for the closure of a root.
* `Answers.validateDocument` and `Answers.validatePath`, for validations. -/

namespace FrancaLint

variable {σ : Type} {inv : σ → Prop} {loader : Loader (StateM σ)}
variable {answer : String → LoaderAnswer}

/-- A loader **answers** like a function wherever an invariant of its state holds, and keeps the
invariant. -/
structure Loader.Answers (loader : Loader (StateM σ)) (inv : σ → Prop)
    (answer : String → LoaderAnswer) : Prop where
  /-- Loading a file gives what the function stands for. -/
  load : ∀ path, Yields inv (loader.load path) ((answer path).result path)
  /-- A notice changes nothing that matters. -/
  notify : ∀ notice, Yields inv (loader.notify notice) ()

namespace Loader.Answers

variable (h : loader.Answers inv answer)
include h

/-! ## Closures -/

/-- Visiting an import. -/
theorem visit (importer : String) (walk : Closure.Walk) (edge : String × Nat) :
    Yields inv (Closure.visit loader importer walk edge)
      (Closure.visit (Loader.ofFunction answer) importer walk edge).run := by
  unfold Closure.visit
  dsimp only
  cases walk.found.failed.lookup edge.1 with
  | some reason => exact .pure _
  | none =>
    dsimp only
    split
    · exact .pure _
    · -- the loader is asked only for a file that has neither failed nor been found
      rw [Id.run_bind, Closure.run_load_ofFunction]
      refine (h.load edge.1).bind ?_
      cases (answer edge.1).result edge.1 with
      | error failure => exact (h.notify _).bind (.pure _)
      | ok document => exact (h.notify _).bind (.pure _)

/-- Visiting pending files. -/
theorem visitPending (limit : Nat) (walk : Closure.Walk) :
    Yields inv (Closure.visitPending loader limit walk)
      (Closure.visitPending (Loader.ofFunction answer) limit walk).run := by
  induction limit generalizing walk with
  | zero => exact .pure _
  | succ limit ih =>
    unfold Closure.visitPending
    cases walk.pending with
    | nil => exact .pure _
    | cons entry rest =>
      rw [Id.run_bind]
      exact (Yields.foldlM (h.visit entry.1) _ _).bind (ih _)

/-- Resolving the closure of a root. -/
theorem resolve (limit : Nat) (root : Document) (directory : Option String) :
    Yields inv (Closure.resolve loader limit root directory)
      (Closure.resolve (Loader.ofFunction answer) limit root directory).run := by
  unfold Closure.resolve
  rw [Id.run_bind]
  exact (h.visitPending limit _).bind (.pure _)

/-! ## Validations -/

variable (settings : Settings) (limit : Nat)

/-- Indexing a closure. -/
theorem closureIndex (closure : Closure) :
    Yields inv (Checker.closureIndex ⟨loader, settings, limit⟩ closure)
      ((pureChecker answer settings limit).closureIndex closure).run := by
  have hnotify := h.notify
  unfold Checker.closureIndex Checker.notifyIndexed
  cases hwhole : settings.wholeProject <;> simp only [pureChecker, hwhole]
  · exact (hnotify _).bind (.pure _)
  · exact (hnotify _).bind ((hnotify _).bind (.pure _))

/-- Indexing a project. -/
theorem projectIndex (project : List Document) (closure : Closure) (cache : IndexCache) :
    Yields inv (Checker.projectIndex ⟨loader, settings, limit⟩ project closure cache)
      ((pureChecker answer settings limit).projectIndex project closure cache).run := by
  unfold Checker.projectIndex Checker.notifyIndexed
  simp only [pureChecker]
  split
  · exact (h.notify _).bind (.pure _)
  · exact (h.notify _).bind ((h.notify _).bind (.pure _))

variable (project : Option (List Document)) (cache : IndexCache)

/-- Finding the index of a run. -/
theorem runIndex (closure : Closure) :
    Yields inv (Checker.runIndex ⟨loader, settings, limit⟩ project closure cache)
      ((pureChecker answer settings limit).runIndex project closure cache).run := by
  have hscoped : Yields inv
      (do return (← Checker.closureIndex ⟨loader, settings, limit⟩ closure, cache))
      (do return (← (pureChecker answer settings limit).closureIndex closure, cache)).run := by
    rw [Id.run_bind]
    exact (h.closureIndex settings limit closure).bind (.pure _)
  have hsettings : (pureChecker answer settings limit).settings = settings := rfl
  unfold Checker.runIndex
  rw [hsettings]
  cases settings.wholeProject with
  | false => exact hscoped
  | true =>
    cases project with
    | none => exact hscoped
    | some documents => exact h.projectIndex settings limit documents closure cache

/-- Validating a document. -/
theorem validateDocument (root : Document) (directory : Option String) :
    Yields inv
      (Checker.validateDocument ⟨loader, settings, limit⟩ root directory project cache)
      ((pureChecker answer settings limit).validateDocument root directory project cache).run := by
  unfold Checker.validateDocument
  cases henabled : settings.enabled with
  | false =>
    simp only [pureChecker, henabled]
    exact .pure _
  | true =>
    simp only [pureChecker, henabled, Bool.not_true, Bool.false_eq_true, if_false]
    rw [Id.run_bind]
    refine (h.resolve limit root directory).bind ?_
    rw [Id.run_bind]
    exact (h.runIndex settings limit project cache _).bind ((h.notify _).bind (.pure _))

/-- Validating a file. -/
theorem validatePath (path : String) :
    Yields inv (Checker.validatePath ⟨loader, settings, limit⟩ path project cache)
      ((pureChecker answer settings limit).validatePath path project cache).run := by
  have hload : ((pureChecker answer settings limit).loader.load (Path.normalize path)).run =
      (answer (Path.normalize path)).result (Path.normalize path) :=
    Closure.run_load_ofFunction _
  unfold Checker.validatePath
  rw [Id.run_bind, hload]
  refine (h.load _).bind ?_
  cases (answer (Path.normalize path)).result (Path.normalize path) with
  | error failure => exact .pure _
  | ok document => exact h.validateDocument settings limit project cache document none

end Loader.Answers

end FrancaLint
