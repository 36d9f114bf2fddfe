import FrancaLint.MemoryStore
import FrancaLint.Proofs.Graph.Reachability
import FrancaLint.Proofs.Loader.Keeps
import FrancaLint.Proofs.Source.Reading
import Mathlib.Data.List.Sort
import Mathlib.Data.String.Basic

/-! # What a store serves

A store keeps the answers that it has given. None of them survives a change of the entry it was made
from, so a store always answers what its entries stand for: what it has been asked before makes no
difference.

* `MemoryStore.Holds`, the entries of a store as a function, and `MemoryStore.Serves`, a store whose
  known answers are those of its entries; `Serves.add`, `Serves.remove` and `Serves.answer` keep it.
* `Held.served`, the answer that the entries stand for, and `yields_load`: loading a file depends on
  the entries alone. -/

namespace FrancaLint

/-! ## Documents of texts -/

/-- A document that a text stands for has the identifier it was loaded for. -/
theorem sourcePath_of_loadSource {source path digest : String} {document : Document}
    (h : loadSource source path digest = .ok document) : document.sourcePath = path := by
  unfold loadSource at h
  split at h
  · rename_i read hread
    cases h
    exact Document.sourcePath_of_ofSource hread
  · cases h

/-! ## Entries -/

/-- The entries of a store, as a function of identifiers. -/
def Held : Type :=
  String → Option StoreEntry

/-- No entries. -/
def Held.empty : Held :=
  fun _ => none

/-- The entries with another one, or none, under an identifier. -/
def Held.put (held : Held) (key : String) (entry : Option StoreEntry) : Held :=
  fun other => if other = key then entry else held other

/-- The answer that some entries stand for under an identifier. -/
def Held.servedAt (held : Held) (key : String) : LoadResult :=
  match held key with
  | some entry => entry.load key
  | none => .error ⟨key, "file not found"⟩

/-- The answer that some entries stand for when a file is asked for. -/
def Held.served (held : Held) (path : String) : LoadResult :=
  held.servedAt (Path.normalize path)

/-- What a loader answers for some entries. -/
def Held.answer (held : Held) (path : String) : LoaderAnswer :=
  .ofResult (held.served path)

/-- The answer of a loader that knows a result stands for the result. -/
@[simp] theorem LoaderAnswer.result_ofResult (result : LoadResult) (path : String) :
    (LoaderAnswer.ofResult result).result path = result := by
  cases result <;> rfl

/-- The answer stands for the document or failure of the entry. -/
@[simp] theorem Held.result_answer (held : Held) (path other : String) :
    (held.answer path).result other = held.served path :=
  LoaderAnswer.result_ofResult _ other

/-- The loader that answers what some entries stand for, without a store. -/
def Held.loader (held : Held) : Loader Id :=
  Loader.ofFunction held.answer

namespace MemoryStore

/-- Dropping a key drops it and nothing else. -/
theorem lookup_dropKey {α : Type} (key other : String) (pairs : List (String × α)) :
    (dropKey key pairs).lookup other = if other = key then none else pairs.lookup other := by
  induction pairs with
  | nil => simp [dropKey]
  | cons pair rest ih =>
    rw [dropKey] at ih ⊢
    rw [List.filter_cons, List.lookup_cons]
    by_cases hkey : pair.1 = key
    · -- a dropped pair is not what another key finds
      have hdropped : (pair.1 != key) = false := by simpa using hkey
      rw [hdropped, if_neg Bool.false_ne_true, ih]
      split
      · rfl
      · rename_i hother
        have hne : (other == pair.1) = false := by simpa [hkey] using hother
        rw [hne]
    · have hkept : (pair.1 != key) = true := by simpa using hkey
      rw [hkept, if_pos rfl, List.lookup_cons, ih]
      cases hother : other == pair.1 with
      | true =>
        have hne : other ≠ key := by rwa [eq_of_beq hother]
        exact (if_neg hne).symm
      | false => rfl

/-- Dropping a key leaves the other keys different. -/
theorem nodup_dropKey {α : Type} {pairs : List (String × α)} (key : String)
    (h : (pairs.map Prod.fst).Nodup) : ((dropKey key pairs).map Prod.fst).Nodup :=
  h.sublist (List.filter_sublist.map Prod.fst)

/-- A dropped key is no key any more. -/
theorem not_mem_dropKey {α : Type} (key : String) (pairs : List (String × α)) :
    key ∉ (dropKey key pairs).map Prod.fst := by
  intro hmem
  obtain ⟨pair, hpair, rfl⟩ := List.mem_map.mp hmem
  have hkept := (List.mem_filter.mp hpair).2
  simp at hkept

/-! ## Stores and their entries -/

/-- A store **holds** some entries: it lists each of them once. -/
structure Holds (store : MemoryStore) (held : Held) : Prop where
  /-- No identifier has two entries. -/
  nodup : (store.entries.map Prod.fst).Nodup
  /-- Every identifier has its entry. -/
  lookup_eq : ∀ key, store.entries.lookup key = held key

/-- A store **serves** the entries that it holds: an answer that it knows is that of the entry. -/
structure Serves (store : MemoryStore) (held : Held) : Prop extends store.Holds held where
  /-- Every known answer is that of an entry. -/
  of_answers : ∀ key result, store.answers.lookup key = some result →
    ∃ entry, held key = some entry ∧ result = entry.load key

/-- A store that has not been asked for anything serves what it holds. -/
theorem Holds.serves {store : MemoryStore} {held : Held} (h : store.Holds held)
    (hnew : store.answers = []) : store.Serves held where
  toHolds := h
  of_answers := by
    intro key result hanswer
    rw [hnew] at hanswer
    cases hanswer

section Serves

variable {store : MemoryStore} {held : Held}

/-- A store has a key for every entry. -/
theorem Holds.mem_keys_iff (h : store.Holds held) {key : String} :
    key ∈ store.keys ↔ (held key).isSome := by
  rw [keys, List.mem_mergeSort, ← h.lookup_eq]
  constructor
  · intro hmem
    obtain ⟨⟨_, entry⟩, hentry, rfl⟩ := List.mem_map.mp hmem
    rw [Option.isSome_iff_ne_none]
    intro hnone
    simpa using List.lookup_eq_none_iff.mp hnone _ hentry
  · intro hsome
    obtain ⟨entry, hentry⟩ := Option.isSome_iff_exists.mp hsome
    exact List.mem_map.mpr ⟨_, Graph.mem_of_lookup hentry, rfl⟩

/-- Stores that hold the same entries list them in the same order. -/
theorem Holds.keys_eq {other : MemoryStore} (h : store.Holds held) (hother : other.Holds held) :
    store.keys = other.keys := by
  have hperm : (store.entries.map Prod.fst).Perm (other.entries.map Prod.fst) := by
    rw [List.perm_ext_iff_of_nodup h.nodup hother.nodup]
    intro key
    have hkey : key ∈ store.keys ↔ key ∈ other.keys :=
      h.mem_keys_iff.trans hother.mem_keys_iff.symm
    simpa only [keys, List.mem_mergeSort] using hkey
  -- lists with the same members are the same once they are sorted
  have hperm' := (List.mergeSort_perm (store.entries.map Prod.fst) (· ≤ ·)).trans
    (hperm.trans (List.mergeSort_perm (other.entries.map Prod.fst) (· ≤ ·)).symm)
  exact hperm'.eq_of_pairwise (fun a b _ _ => String.le_antisymm)
    (List.pairwise_mergeSort' _ _) (List.pairwise_mergeSort' _ _)

/-- Putting an entry into a store forgets the answer of its identifier. -/
theorem Serves.add (h : store.Serves held) (path : String) (entry : StoreEntry) :
    (store.add path entry).Serves (held.put (Path.normalize path) (some entry)) where
  nodup := by
    rw [MemoryStore.add, List.map_cons, List.nodup_cons]
    exact ⟨not_mem_dropKey _ _, nodup_dropKey _ h.nodup⟩
  lookup_eq := by
    intro key
    rw [MemoryStore.add, List.lookup_cons, lookup_dropKey, h.lookup_eq, Held.put]
    cases hkey : key == Path.normalize path with
    | true => exact (if_pos (eq_of_beq hkey)).symm
    | false => simp [ne_of_beq_false hkey]
  of_answers := by
    intro key result hanswer
    rw [MemoryStore.add, lookup_dropKey] at hanswer
    split at hanswer
    · cases hanswer
    · rename_i hkey
      rw [Held.put, if_neg hkey]
      exact h.of_answers key result hanswer

/-- Removing an entry from a store forgets the answer of its identifier. -/
theorem Serves.remove (h : store.Serves held) (path : String) :
    (store.remove path).Serves (held.put (Path.normalize path) none) where
  nodup := nodup_dropKey _ h.nodup
  lookup_eq := by
    intro key
    rw [MemoryStore.remove, lookup_dropKey, h.lookup_eq, Held.put]
  of_answers := by
    intro key result hanswer
    rw [MemoryStore.remove, lookup_dropKey] at hanswer
    split at hanswer
    · cases hanswer
    · rename_i hkey
      rw [Held.put, if_neg hkey]
      exact h.of_answers key result hanswer

/-- A store answers what the entry stands for, and goes on serving its entries. -/
theorem Serves.answer (h : store.Serves held) (key : String) :
    (store.answer key).1 = held.servedAt key ∧ (store.answer key).2.Serves held := by
  unfold MemoryStore.answer Held.servedAt
  cases hknown : store.answers.lookup key with
  | some result =>
    obtain ⟨entry, hentry, rfl⟩ := h.of_answers key result hknown
    rw [hentry]
    exact ⟨rfl, h⟩
  | none =>
    dsimp only
    rw [h.lookup_eq]
    cases hentry : held key with
    | none => exact ⟨rfl, h⟩
    | some entry =>
      -- the new answer is remembered, and is that of the entry
      refine ⟨rfl, ⟨h.nodup, h.lookup_eq⟩, ?_⟩
      intro other result hanswer
      rw [List.lookup_cons] at hanswer
      cases hother : other == key with
      | true =>
        rw [hother, Option.some.injEq] at hanswer
        rw [eq_of_beq hother]
        exact ⟨entry, hentry, hanswer.symm⟩
      | false =>
        rw [hother] at hanswer
        exact h.of_answers other result hanswer

/-- Asking for documents leaves a store serving its entries. -/
theorem Serves.documentsAt (h : store.Serves held) (keys : List String) :
    (documentsAt keys store).1 = keys.filterMap (fun key => (held.servedAt key).toOption) ∧
      (documentsAt keys store).2.Serves held := by
  induction keys generalizing store with
  | nil => exact ⟨rfl, h⟩
  | cons key rest ih =>
    obtain ⟨hanswer, hserves⟩ := h.answer key
    obtain ⟨hrest, hserves⟩ := ih hserves
    unfold MemoryStore.documentsAt
    rw [List.filterMap_cons, ← hanswer, ← hrest]
    cases hresult : (store.answer key).1 with
    | ok document => exact ⟨by simp [hresult, Except.toOption], by simpa [hresult] using hserves⟩
    | error failure => exact ⟨by simp [hresult, Except.toOption], by simpa [hresult] using hserves⟩

/-- Asking for a file leaves a store serving its entries, since a request changes none. -/
theorem Serves.request (h : store.Serves held) (path : String) :
    (store.request path).1 = held.served path ∧ (store.request path).2.Serves held := by
  have hrecorded : Serves
      { store with requests := store.requests ++ [Path.normalize path] } held :=
    ⟨⟨h.nodup, h.lookup_eq⟩, h.of_answers⟩
  exact hrecorded.answer (Path.normalize path)

/-- Stores that serve the same entries have the same documents. -/
theorem Serves.documents {other : MemoryStore} (h : store.Serves held)
    (hother : other.Serves held) :
    store.documents.1 = other.documents.1 ∧ store.documents.2.Serves held := by
  obtain ⟨hdocuments, hserves⟩ := h.documentsAt store.keys
  refine ⟨?_, hserves⟩
  rw [MemoryStore.documents, hdocuments, MemoryStore.documents, (hother.documentsAt other.keys).1,
    h.keys_eq hother.toHolds]

end Serves

/-- Loading a file is asking for it. -/
theorem run_load (store : MemoryStore) (path : String) :
    (loader.load path).run store = store.request path := by
  cases hresult : store.request path with
  | mk result after =>
    cases result <;>
      simp [Loader.load, loader, hresult, LoaderAnswer.ofResult, LoaderAnswer.result] <;> rfl

/-- Without a store, loading a file gives what its entry stands for. -/
@[simp] theorem load_heldLoader (held : Held) (path : String) :
    (held.loader.load path).run = held.served path := by
  cases hresult : held.served path <;>
    simp [Held.loader, Held.answer, Loader.ofFunction, Loader.load, hresult,
      LoaderAnswer.ofResult, LoaderAnswer.result]

/-- Loading a file yields what its entry stands for. -/
theorem yields_load (held : Held) (path : String) :
    Yields (MemoryStore.Serves · held) (loader.load path) (held.loader.load path).run := by
  intro store h
  rw [run_load, load_heldLoader]
  exact h.request path

end MemoryStore

end FrancaLint
