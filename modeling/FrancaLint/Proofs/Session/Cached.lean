import FrancaLint.Proofs.Closure.BrokenImports
import FrancaLint.Proofs.MemoryStore.Run
import FrancaLint.Proofs.Validation.SharedCache

/-! # Runs on trusted entries with a cache

Entries are trusted when their documents are known and every file has one canonical identifier. Then
a coherent cache makes no difference to what a run on the entries reports.

* `Held.Trusted`, entries whose documents are known and stand under their own identifiers, and
  `Canonical`, imports that ask for canonical identifiers.
* `filed_resolve`: the closures of such entries.
* `MemoryStore.validateDocument_of_coherent` and `MemoryStore.validatePath_of_coherent`: what a run
  reports and what cache it leaves. -/

namespace FrancaLint

open Closure

/-! ## Documents of entries -/

/-- The imports of a document, relative to a directory, ask for **canonical** identifiers. -/
def Canonical (document : Document) (directory : String) : Prop :=
  ∀ target ∈ document.importTargets directory, Path.normalize target = target

/-- Entries are **trusted** when the documents that they stand for are known, have the identifiers
of their entries and import canonical identifiers. -/
structure Held.Trusted (held : Held) (known : Document → Prop) : Prop where
  /-- The documents are known. -/
  known : ∀ key entry document, held key = some entry → entry.load key = .ok document →
    known document
  /-- The documents stand under their own identifiers. -/
  sourcePath_eq : ∀ key entry document, held key = some entry → entry.load key = .ok document →
    document.sourcePath = key
  /-- The documents import canonical identifiers. -/
  canonical : ∀ key entry document, held key = some entry → entry.load key = .ok document →
    Canonical document document.directory

/-- A document that is served from trusted entries is that of a trusted entry. -/
theorem Held.Trusted.of_servedAt {held : Held} {known : Document → Prop} (h : held.Trusted known)
    {key : String} {document : Document} (hserved : held.servedAt key = .ok document) :
    known document ∧ document.sourcePath = key ∧ Canonical document document.directory := by
  unfold Held.servedAt at hserved
  split at hserved
  · rename_i entry hentry
    exact ⟨h.known key entry document hentry hserved,
      h.sourcePath_eq key entry document hentry hserved,
      h.canonical key entry document hentry hserved⟩
  · cases hserved

/-! ## Documents of a closure -/

section Closure

variable {held : Held} {known : Document → Prop} (htrusted : held.Trusted known)
variable {root : Document} {directory : Option String}
  (hroot : Canonical root (rootDirectory root directory))
include htrusted hroot

/-- Every reachable file but the root has a canonical identifier. -/
theorem normalize_of_reachable {path : String}
    (h : Reachable held.answer root directory path) :
    path = root.identifier ∨ Path.normalize path = path := by
  induction h with
  | root => exact Or.inl rfl
  | @target importer target reached imported ih =>
    refine Or.inr ?_
    by_cases himporter : importer = root.identifier
    · subst himporter
      rw [Document.identifier, fileTargets_root] at imported
      exact hroot target imported
    · -- an importer that is served has its own directory, since it is canonical itself
      have hnormal := ih.resolve_left himporter
      obtain ⟨document, hdocument⟩ := exists_fileDocument?_of_mem_fileTargets imported
      rcases fileDocument?_eq_some_iff.mp hdocument with ⟨heq, -⟩ | ⟨-, hload⟩
      · exact absurd heq himporter
      · rw [fileTargets_of_ok himporter hload] at imported
        rw [Held.result_answer] at hload
        obtain ⟨-, hpath, hcanonical⟩ := htrusted.of_servedAt hload
        refine hcanonical target ?_
        rwa [Document.directory, hpath, hnormal]

/-- The closure is filed if the root is known. -/
theorem filed_resolve (hknown : known root) (limit : Nat) :
    (resolve (Loader.ofFunction held.answer) limit root directory).run.Filed known := by
  rintro ⟨path, document⟩ hpair
  obtain ⟨hreach, hdocument⟩ := of_mem_documents_resolve hpair
  rcases fileDocument?_eq_some_iff.mp hdocument with ⟨rfl, rfl⟩ | ⟨hne, hload⟩
  · exact ⟨hknown, rfl⟩
  · have hnormal := (normalize_of_reachable htrusted hroot hreach).resolve_left hne
    rw [Held.result_answer] at hload
    obtain ⟨hknown, hpath, -⟩ := htrusted.of_servedAt hload
    exact ⟨hknown, by rw [Document.identifier, hpath, hnormal, hnormal]⟩

end Closure

/-! ## Runs -/

namespace MemoryStore

variable {held : Held} (settings : Settings) (limit : Nat)
variable {known : Document → Prop} {cache : IndexCache} (hcache : cache.Coherent known)
  (htell : VersionsTell known) (htrusted : held.Trusted known)
  {project : Option (List Document)}
  (hproject : ∀ documents, project = some documents → ∀ document ∈ documents, known document)
include hcache htell htrusted hproject

/-- A run with a coherent cache reports what it reports with a new one, and leaves the cache
coherent. -/
theorem validateDocument_of_coherent {root : Document} {directory : Option String}
    (hknown : known root) (hroot : Canonical root (rootDirectory root directory)) :
    let run (cache : IndexCache) :=
      ((pureChecker held.answer settings limit).validateDocument root directory project cache).run
    (run cache).1 = (run {}).1 ∧ (run cache).2.Coherent known :=
  FrancaLint.validateDocument_of_coherent settings limit hcache htell hproject
    (filed_resolve htrusted hroot hknown limit)

/-- A run for a file with a coherent cache reports what it reports with a new one, and leaves the
cache coherent. -/
theorem validatePath_of_coherent (path : String) :
    let run (cache : IndexCache) :=
      ((pureChecker held.answer settings limit).validatePath path project cache).run
    (run cache).1 = (run {}).1 ∧ (run cache).2.Coherent known := by
  refine FrancaLint.validatePath_of_coherent settings limit hcache htell hproject path ?_
  intro root hload
  rw [Held.result_answer] at hload
  obtain ⟨hknown, -, hcanonical⟩ := htrusted.of_servedAt hload
  have hroot : Canonical root (rootDirectory root none) := hcanonical
  exact filed_resolve htrusted hroot hknown limit

end MemoryStore

end FrancaLint
