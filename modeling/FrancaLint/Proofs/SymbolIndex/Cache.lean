import FrancaLint.Proofs.SymbolIndex.Determined
import Mathlib.Data.Finset.Dedup
import Mathlib.Data.List.Induction

/-! # The index of a project is never stale

A cache compares the versions of the documents that it is asked about with those of the documents
that it indexed last, as sets. Where a version tells what its document declares, equal sets make
equal indexes, so whatever a cache answers is the index of the documents it was asked about.

* `versions`, the set of versions, and `VersionsTell`, versions that tell what is declared.
* `IndexCache.Coherent`, the invariant of a cache, kept by `Coherent.build` and `Coherent.get`.
* `CacheCall`, the calls on a cache, and `lastBuilt`, the versions that were indexed last.
* `index_is_never_stale`: what a run of calls answers and when it builds an index. -/

namespace FrancaLint

/-- The **versions** of some documents, as a set: the identifier of every file with the digest of
its text or the serial number of its document. -/
def versions (documents : List Document) : Finset (String × Stamp) :=
  (documents.map Document.stamp).toFinset

/-- Known documents of one version declare the same. -/
def VersionsTell (known : Document → Prop) : Prop :=
  ∀ document other, known document → known other → document.stamp = other.stamp →
    document.DeclaresAs other

/-- Lists have the same members when they are the same as sets. -/
theorem sameMembers_iff {α : Type} [DecidableEq α] {a b : List α} :
    sameMembers a b = true ↔ a.toFinset = b.toFinset := by
  simp only [sameMembers, Bool.and_eq_true, List.all_eq_true, decide_eq_true_eq, Finset.ext_iff,
    List.mem_toFinset]
  constructor
  · rintro ⟨hinto, hback⟩ x
    exact ⟨hinto x, hback x⟩
  · intro h
    exact ⟨fun x => (h x).mp, fun x => (h x).mpr⟩

/-- A document has a version among those of some documents if one of them has it. -/
theorem mem_versions_iff {documents : List Document} {version : String × Stamp} :
    version ∈ versions documents ↔ ∃ document ∈ documents, document.stamp = version := by
  rw [versions, List.mem_toFinset, List.mem_map]

/-- Known documents of the same versions make the same index. -/
theorem build_eq_of_versions_eq {known : Document → Prop} (htell : VersionsTell known)
    {documents others : List Document} (hknown : ∀ document ∈ documents, known document)
    (hothers : ∀ other ∈ others, known other) (hpackage : OnePackage documents)
    (hpackage' : OnePackage others) (h : versions documents = versions others) :
    SymbolIndex.build documents = SymbolIndex.build others := by
  refine SymbolIndex.build_eq_of_declares hpackage hpackage' ?_ ?_
  · intro document hdocument
    have hmem : document.stamp ∈ versions others :=
      h ▸ mem_versions_iff.mpr ⟨document, hdocument, rfl⟩
    obtain ⟨other, hother, heq⟩ := mem_versions_iff.mp hmem
    exact ⟨other, hother, (congrArg Prod.fst heq).symm,
      htell document other (hknown document hdocument) (hothers other hother) heq.symm⟩
  · intro other hother
    have hmem : other.stamp ∈ versions documents :=
      h ▸ mem_versions_iff.mpr ⟨other, hother, rfl⟩
    obtain ⟨document, hdocument, heq⟩ := mem_versions_iff.mp hmem
    exact ⟨document, hdocument, congrArg Prod.fst heq,
      htell document other (hknown document hdocument) (hothers other hother) heq⟩

namespace IndexCache

/-! ## What a cache keeps -/

/-- A cache is **coherent** when its index is that of known documents, with the versions that it has
noted. -/
def Coherent (known : Document → Prop) (cache : IndexCache) : Prop :=
  ∀ stamps index, cache.snapshot = some (stamps, index) → ∃ documents : List Document,
    (∀ document ∈ documents, known document) ∧ OnePackage documents ∧
      stamps = documents.map Document.stamp ∧ index = SymbolIndex.build documents

/-- The versions of the documents that a cache has indexed, none if it has no index. -/
def noted (cache : IndexCache) : Option (Finset (String × Stamp)) :=
  cache.snapshot.map fun (stamps, _) => stamps.toFinset

variable {known : Document → Prop} {cache : IndexCache} {documents : List Document}

/-- A cache without an index is coherent. -/
theorem coherent_of_snapshot_eq_none (h : cache.snapshot = none) : Coherent known cache := by
  intro stamps index hsnapshot
  rw [h] at hsnapshot
  cases hsnapshot

/-- A cache that builds an index of known documents is coherent. -/
theorem coherent_build (cache : IndexCache) (hknown : ∀ document ∈ documents, known document)
    (hpackage : OnePackage documents) : Coherent known (cache.build documents).2 := by
  intro stamps index hsnapshot
  cases hsnapshot
  exact ⟨documents, hknown, hpackage, rfl, rfl⟩

/-- A cache that has noted the versions of some documents answers with its index. -/
theorem get_of_noted (h : cache.noted = some (versions documents)) :
    ∃ stamps index, cache.snapshot = some (stamps, index) ∧
      stamps.toFinset = versions documents ∧ cache.get documents = (index, cache) := by
  obtain ⟨⟨stamps, index⟩, hsnapshot, heq⟩ := Option.map_eq_some_iff.mp h
  have hsame : sameMembers stamps (documents.map Document.stamp) = true := sameMembers_iff.mpr heq
  refine ⟨stamps, index, hsnapshot, heq, ?_⟩
  simp only [get, hsnapshot, hsame, if_true]

/-- A cache that has noted other versions, or none, builds an index. -/
theorem get_of_not_noted (h : cache.noted ≠ some (versions documents)) :
    cache.get documents = cache.build documents := by
  unfold get
  split
  · rfl
  · rename_i stamps index hsnapshot
    have hother : ¬ sameMembers stamps (documents.map Document.stamp) = true := by
      rw [sameMembers_iff]
      intro heq
      exact h (by rw [noted, hsnapshot]; exact congrArg some heq)
    rw [if_neg hother]

/-- What a coherent cache answers is the index of the documents it is asked about. -/
theorem Coherent.get_eq_build (h : Coherent known cache) (htell : VersionsTell known)
    (hknown : ∀ document ∈ documents, known document) (hpackage : OnePackage documents) :
    (cache.get documents).1 = SymbolIndex.build documents := by
  by_cases hnoted : cache.noted = some (versions documents)
  · obtain ⟨stamps, index, hsnapshot, heq, hget⟩ := get_of_noted hnoted
    obtain ⟨indexed, hindexed, hone, rfl, rfl⟩ := h stamps index hsnapshot
    rw [hget]
    exact build_eq_of_versions_eq htell hindexed hknown hone hpackage heq
  · rw [get_of_not_noted hnoted]
    rfl

/-- A coherent cache stays coherent when it is asked about known documents. -/
theorem Coherent.get (h : Coherent known cache)
    (hknown : ∀ document ∈ documents, known document) (hpackage : OnePackage documents) :
    Coherent known (cache.get documents).2 := by
  by_cases hnoted : cache.noted = some (versions documents)
  · obtain ⟨stamps, index, -, -, hget⟩ := get_of_noted hnoted
    rw [hget]
    exact h
  · rw [get_of_not_noted hnoted]
    exact coherent_build cache hknown hpackage

end IndexCache

/-! ## Calls on a cache -/

/-- A **call** on a cache. -/
inductive CacheCall where
  /-- Build the index of some documents. -/
  | build (documents : List Document)
  /-- Ask for the index of some documents. -/
  | get (documents : List Document)
  /-- Forget the index. -/
  | invalidate

namespace CacheCall

/-- The documents that a call hands over. -/
def documents : CacheCall → List Document
  | build documents => documents
  | get documents => documents
  | invalidate => []

/-- What a call answers, and the cache after it. -/
def run (cache : IndexCache) : CacheCall → Option SymbolIndex × IndexCache
  | build documents => (some (cache.build documents).1, (cache.build documents).2)
  | get documents => (some (cache.get documents).1, (cache.get documents).2)
  | invalidate => (none, cache.invalidate)

/-- The index of the documents of a call, none for a call that asks for no index. -/
def index? : CacheCall → Option SymbolIndex
  | build documents => some (.build documents)
  | get documents => some (.build documents)
  | invalidate => none

/-- A call **builds** an index, if these versions were indexed last and not forgotten since: it asks
for that, or it asks about other versions. -/
def Builds (last : Option (Finset (String × Stamp))) : CacheCall → Prop
  | build _ => True
  | get documents => last ≠ some (versions documents)
  | invalidate => False

instance (last : Option (Finset (String × Stamp))) (call : CacheCall) :
    Decidable (call.Builds last) :=
  match call with
  | build _ => inferInstanceAs (Decidable True)
  | get documents => inferInstanceAs (Decidable (last ≠ some (versions documents)))
  | invalidate => inferInstanceAs (Decidable False)

/-- The versions that are indexed last after a call. -/
def lastAfter (last : Option (Finset (String × Stamp))) :
    CacheCall → Option (Finset (String × Stamp))
  | build documents => some (versions documents)
  | get documents => if (get documents).Builds last then some (versions documents) else last
  | invalidate => none

end CacheCall

/-- A new cache after some calls. -/
def IndexCache.after (calls : List CacheCall) : IndexCache :=
  calls.foldl (fun cache call => (call.run cache).2) {}

/-- The versions that were indexed last in a run of calls, none if nothing has been indexed since
the start or since the index was forgotten. -/
def lastBuilt (calls : List CacheCall) : Option (Finset (String × Stamp)) :=
  calls.foldl CacheCall.lastAfter none

namespace CacheCall

variable {known : Document → Prop} {cache : IndexCache} {call : CacheCall}

/-- A call that builds counts, and no other. -/
theorem builds_run (call : CacheCall) (cache : IndexCache) :
    (call.run cache).2.builds =
      if call.Builds cache.noted then cache.builds + 1 else cache.builds := by
  cases call with
  | build documents => rfl
  | get documents =>
    by_cases hnoted : cache.noted = some (versions documents)
    · obtain ⟨stamps, index, -, -, hget⟩ := IndexCache.get_of_noted hnoted
      simp [run, Builds, hget, hnoted]
    · simp [run, Builds, IndexCache.get_of_not_noted hnoted, hnoted, IndexCache.build]
  | invalidate => rfl

/-- A call leaves noted what was indexed last. -/
theorem noted_run (call : CacheCall) (cache : IndexCache) :
    (call.run cache).2.noted = call.lastAfter cache.noted := by
  cases call with
  | build documents => rfl
  | get documents =>
    by_cases hnoted : cache.noted = some (versions documents)
    · obtain ⟨stamps, index, -, -, hget⟩ := IndexCache.get_of_noted hnoted
      simp [run, lastAfter, Builds, hget, hnoted]
    · have hbuilds : (CacheCall.get documents).Builds cache.noted := hnoted
      rw [lastAfter, if_pos hbuilds, run, IndexCache.get_of_not_noted hnoted]
      rfl
  | invalidate => rfl

/-- A call with known documents keeps a cache coherent. -/
theorem coherent_run (h : cache.Coherent known)
    (hknown : ∀ document ∈ call.documents, known document) (hpackage : OnePackage call.documents) :
    (call.run cache).2.Coherent known := by
  cases call with
  | build documents => exact IndexCache.coherent_build cache hknown hpackage
  | get documents => exact h.get hknown hpackage
  | invalidate => exact IndexCache.coherent_of_snapshot_eq_none rfl

/-- A coherent cache answers a call with the index of its documents. -/
theorem answer_run (h : cache.Coherent known) (htell : VersionsTell known)
    (hknown : ∀ document ∈ call.documents, known document) (hpackage : OnePackage call.documents) :
    (call.run cache).1 = call.index? := by
  cases call with
  | build documents => rfl
  | get documents => exact congrArg some (h.get_eq_build htell hknown hpackage)
  | invalidate => rfl

end CacheCall

/-- After any run of calls the cache has noted what was indexed last. -/
theorem IndexCache.noted_after (calls : List CacheCall) :
    (IndexCache.after calls).noted = lastBuilt calls := by
  induction calls using List.reverseRecOn with
  | nil => rfl
  | append_singleton calls call ih =>
    rw [after, lastBuilt, List.foldl_append, List.foldl_append]
    show (call.run (after calls)).2.noted = call.lastAfter (lastBuilt calls)
    rw [CacheCall.noted_run, ih]

/-- After any run of calls with known documents the cache is coherent. -/
theorem IndexCache.coherent_after {known : Document → Prop} {calls : List CacheCall}
    (hknown : ∀ call ∈ calls, ∀ document ∈ call.documents, known document)
    (hpackage : ∀ call ∈ calls, OnePackage call.documents) :
    (IndexCache.after calls).Coherent known := by
  induction calls using List.reverseRecOn with
  | nil => exact coherent_of_snapshot_eq_none rfl
  | append_singleton calls call ih =>
    rw [after, List.foldl_append]
    refine CacheCall.coherent_run (ih ?_ ?_) (hknown call (by simp)) (hpackage call (by simp))
    · exact fun other hother => hknown other (List.mem_append_left _ hother)
    · exact fun other hother => hpackage other (List.mem_append_left _ hother)

/-- **The index of a project is never stale.** In a run of calls on a new cache, let the documents
of one call give every file one package, and let documents of one version declare the same. Then
every call that asks for an index is answered with that of its documents, and an index is built
exactly by the calls that ask for that and by those that ask about other versions than were indexed
last. -/
theorem index_is_never_stale (calls : List CacheCall)
    (hpackage : ∀ call ∈ calls, OnePackage call.documents)
    (htell : VersionsTell fun document => ∃ call ∈ calls, document ∈ call.documents) :
    ∀ before call later, calls = before ++ call :: later →
      let cache := IndexCache.after before
      (call.run cache).1 = call.index? ∧
      (call.run cache).2.builds =
        if call.Builds (lastBuilt before) then cache.builds + 1 else cache.builds := by
  rintro before call later rfl
  have hmem : call ∈ before ++ call :: later := by simp
  have hcoherent : (IndexCache.after before).Coherent
      fun document => ∃ other ∈ before ++ call :: later, document ∈ other.documents := by
    refine IndexCache.coherent_after ?_ ?_
    · exact fun other hother document hdocument =>
        ⟨other, List.mem_append_left _ hother, hdocument⟩
    · exact fun other hother => hpackage other (List.mem_append_left _ hother)
  constructor
  · exact CacheCall.answer_run hcoherent htell (fun document hdocument => ⟨call, hmem, hdocument⟩)
      (hpackage call hmem)
  · rw [CacheCall.builds_run, IndexCache.noted_after]

/-- A serial number that comes back does not tell two documents apart: the cache answers with the
index of the one that is gone. -/
example :
    let fan (package : String) : Document :=
      { package := package, sourcePath := "/p/fan.fidl", serial := 7 }
    let cache := (({} : IndexCache).get [fan "old"]).2
    (cache.get [fan "new"]).1.filePackages = [("/p/fan.fidl", "old")] := by
  decide +kernel

/-! ## Calls with repetitions and a copy -/

/-- A file with a digest, as it is read at some line. -/
def lamp (line : Int) : Document :=
  { package := "p", sourcePath := "/p/lamp.fidl", interfaces := [{ name := "Lamp" }],
    digest := some "1a", span := { line := some line } }

/-- A file without a digest. -/
def fan : Document :=
  { package := "p", sourcePath := "/p//fan.fidl", typeCollections := [{ name := "Fan" }],
    serial := 7 }

/-- Calls about these files in another order, with repetitions and a copy. -/
def fanCalls : List CacheCall :=
  [.get [lamp 1, fan], .get [fan, lamp 2, fan], .invalidate, .build [fan]]

/-- The second of these calls is answered rightly and without building an index. -/
theorem index_of_fanCalls :
    (∀ call ∈ fanCalls, OnePackage call.documents) ∧
    (VersionsTell fun document => ∃ call ∈ fanCalls, document ∈ call.documents) ∧
    ((CacheCall.get [fan, lamp 2, fan]).run (IndexCache.after [.get [lamp 1, fan]])).1 =
      some (SymbolIndex.build [fan, lamp 2, fan]) ∧
    ((CacheCall.get [fan, lamp 2, fan]).run (IndexCache.after [.get [lamp 1, fan]])).2.builds =
      (IndexCache.after [.get [lamp 1, fan]]).builds := by
  have hpackage : ∀ call ∈ fanCalls, OnePackage call.documents := by
    unfold OnePackage
    decide
  have hnames : ∀ document ∈ fanCalls.flatMap CacheCall.documents,
      ∀ other ∈ fanCalls.flatMap CacheCall.documents, document.stamp = other.stamp →
        document.package = other.package ∧ document.declaredNames = other.declaredNames := by
    decide
  have htell : VersionsTell fun document => ∃ call ∈ fanCalls, document ∈ call.documents := by
    rintro document other hdocument hother hstamp
    obtain ⟨heq, hdeclared⟩ := hnames document (List.mem_flatMap.mpr hdocument) other
      (List.mem_flatMap.mpr hother) hstamp
    exact ⟨heq, fun named => by rw [hdeclared]⟩
  obtain ⟨hanswer, hbuilds⟩ := index_is_never_stale fanCalls hpackage htell
    [.get [lamp 1, fan]] (.get [fan, lamp 2, fan]) [.invalidate, .build [fan]] rfl
  refine ⟨hpackage, htell, hanswer, hbuilds.trans (if_neg ?_)⟩
  decide

end FrancaLint
