import FrancaLint.Loader
import FrancaLint.Path
import FrancaLint.Source.Document
import FrancaLint.Text.Digest

/-! # Documents in memory

A **store** serves documents and source texts under their identifiers. A text is read when it is
asked for first; the answer is kept until the entry is replaced or removed.

Main definitions: `MemoryStore` with `add`, `remove` and `documents`; `MemoryStore.loader`. -/

namespace FrancaLint

/-- What a store holds under an identifier. -/
inductive StoreEntry where
  /-- The text of a file. -/
  | text (source : String)
  /-- A document, served as it is. -/
  | document (document : Document)
  deriving DecidableEq, Repr, Inhabited

/-- The document or failure that a source text stands for. -/
def loadSource (source path digest : String) : LoadResult :=
  match Document.ofSource source path (some digest) with
  | .ok document => .ok document
  | .error fault => .error ⟨path, fault.message⟩

/-- The document or failure that an entry stands for. -/
def StoreEntry.load (path : String) : StoreEntry → LoadResult
  | .text source => loadSource source path (Digest.ofText source)
  | .document d => .ok d

/-- The answer of a loader that knows a result. -/
def LoaderAnswer.ofResult : LoadResult → LoaderAnswer
  | .ok d => .document d
  | .error f => .failure f

/-- A **store** of entries. -/
structure MemoryStore where
  /-- The entries by identifier. -/
  entries : List (String × StoreEntry) := []
  /-- The answers that are known. -/
  answers : List (String × LoadResult) := []
  /-- The identifiers that the store has been asked for, in order. -/
  requests : List String := []
  deriving Inhabited

namespace MemoryStore

/-- The pairs with another key. -/
def dropKey {α : Type} (key : String) (pairs : List (String × α)) : List (String × α) :=
  pairs.filter (·.1 != key)

/-- Put an entry under an identifier, in place of any other. -/
def add (store : MemoryStore) (path : String) (entry : StoreEntry) : MemoryStore :=
  let key := Path.normalize path
  { store with
    entries := (key, entry) :: dropKey key store.entries
    answers := dropKey key store.answers }

/-- Remove the entry of an identifier. -/
def remove (store : MemoryStore) (path : String) : MemoryStore :=
  let key := Path.normalize path
  { store with
    entries := dropKey key store.entries
    answers := dropKey key store.answers }

/-- The answer for an identifier, and the store that knows it. -/
def answer (store : MemoryStore) (key : String) : LoadResult × MemoryStore :=
  match store.answers.lookup key with
  | some result => (result, store)
  | none =>
      match store.entries.lookup key with
      | none => (.error ⟨key, "file not found"⟩, store)
      | some entry =>
          let result := entry.load key
          (result, { store with answers := (key, result) :: store.answers })

/-- The answer for a file that is asked for, and the store that has recorded the request. -/
def request (store : MemoryStore) (path : String) : LoadResult × MemoryStore :=
  let key := Path.normalize path
  { store with requests := store.requests ++ [key] }.answer key

/-- The identifiers of the entries, sorted. -/
def keys (store : MemoryStore) : List String :=
  (store.entries.map (·.1)).mergeSort fun a b => a ≤ b

/-- The documents under some identifiers, without those that fail to load. -/
def documentsAt : List String → MemoryStore → List Document × MemoryStore
  | [], store => ([], store)
  | key :: rest, store =>
      let (result, store) := store.answer key
      let (documents, store) := documentsAt rest store
      match result with
      | .ok document => (document :: documents, store)
      | .error _ => (documents, store)

/-- Every document of the store, sorted by identifier. -/
def documents (store : MemoryStore) : List Document × MemoryStore :=
  documentsAt store.keys store

/-- The store as a loader. -/
def loader : Loader (StateM MemoryStore) where
  ask path := do
    let (result, store) := (← get).request path
    set store
    return .ofResult result
  notify _ := pure ()

end MemoryStore

end FrancaLint
