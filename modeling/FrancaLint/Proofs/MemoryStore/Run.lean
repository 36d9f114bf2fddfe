import FrancaLint.Proofs.Loader.Answers
import FrancaLint.Proofs.MemoryStore.Serving

/-! # Runs on a store

A run asks for files and does nothing else with a store. So it gives what the same run gives with
the loader that answers what the entries of the store stand for, whatever the store has been asked
before.

* `loader_answers`: a store answers like its entries.
* `yields_validateDocument` and `yields_validatePath`, for validations. -/

namespace FrancaLint.MemoryStore

variable (held : Held)

/-- A store answers like the entries that it serves. -/
theorem loader_answers : loader.Answers (MemoryStore.Serves · held) held.answer where
  load := by
    intro path
    have hload := yields_load held path
    rwa [load_heldLoader, ← Held.result_answer held path path] at hload
  notify := fun _ => .pure ()

/-- A checker that loads from a store. -/
def checker (settings : Settings) (limit : Nat) : Checker (StateM MemoryStore) where
  loader := loader
  settings := settings
  limit := limit

variable (settings : Settings) (limit : Nat)
variable (project : Option (List Document)) (cache : IndexCache)

/-- Validating a document. -/
theorem yields_validateDocument (root : Document) (directory : Option String) :
    Yields (MemoryStore.Serves · held)
      ((checker settings limit).validateDocument root directory project cache)
      ((pureChecker held.answer settings limit).validateDocument root directory project
        cache).run :=
  (loader_answers held).validateDocument settings limit project cache root directory

/-- Validating a file. -/
theorem yields_validatePath (path : String) :
    Yields (MemoryStore.Serves · held) ((checker settings limit).validatePath path project cache)
      ((pureChecker held.answer settings limit).validatePath path project cache).run :=
  (loader_answers held).validatePath settings limit project cache path

end FrancaLint.MemoryStore
