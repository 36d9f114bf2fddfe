import FrancaLint.SymbolIndex
import Mathlib.Data.List.Sort
import Mathlib.Data.Prod.Lex
import Mathlib.Data.String.Basic

/-! # The order of an index

Files and declarations of an index are sorted by linear orders, so what an index lists depends on
which documents it was built from and not on their order. For documents of different files this file
says what the lists hold and that nothing comes twice.

* `SymbolIndex.fileNotAfter_iff` and `SymbolEntry.notAfter_iff`, the orders as lexicographic ones.
* `SymbolIndex.mem_filePackages_iff` and `SymbolIndex.mem_filesDeclaring_iff`, the members.
* `SymbolIndex.filePackages_sublist` and `SymbolIndex.filesDeclaring_sublist`: the lists of an index
  are parts of those of a larger one. -/

namespace FrancaLint

/-- The identifier of the file that holds a document. -/
def Document.identifier (document : Document) : String :=
  Path.normalize document.sourcePath

/-- Entries are compared lexicographically. -/
theorem SymbolEntry.notAfter_iff (a b : SymbolEntry) : a.notAfter b = true ↔
    toLex (a.qualifiedName, toLex (a.file, a.kind.keyword)) ≤
      toLex (b.qualifiedName, toLex (b.file, b.kind.keyword)) := by
  simp only [SymbolEntry.notAfter, Prod.Lex.toLex_le_toLex]
  split <;> rename_i hname
  · simp [hname, le_iff_lt_or_eq]
  · rw [not_not] at hname
    split <;> rename_i hfile
    · simp [hname, hfile, le_iff_lt_or_eq]
    · rw [not_not] at hfile
      simp [hname, hfile]

namespace SymbolIndex

/-- Files are compared lexicographically by package and identifier. -/
theorem fileNotAfter_iff (a b : String × String) :
    fileNotAfter a b = true ↔ toLex (a.2, a.1) ≤ toLex (b.2, b.1) := by
  simp only [fileNotAfter, Prod.Lex.toLex_le_toLex]
  split <;> rename_i hpackage
  · simp [hpackage, le_iff_lt_or_eq]
  · rw [not_not] at hpackage
    simp [hpackage]

/-- Files in the order of an index are the same if neither comes before the other. -/
instance : Std.Antisymm fun a b : String × String => fileNotAfter a b = true where
  antisymm a b hab hba := by
    rw [fileNotAfter_iff] at hab hba
    have heq := congrArg ofLex (le_antisymm hab hba)
    simp only [ofLex_toLex, Prod.mk.injEq] at heq
    exact Prod.ext heq.2 heq.1

/-- Sorted files are in order. -/
theorem pairwise_mergeSort_fileNotAfter (files : List (String × String)) :
    (files.mergeSort fileNotAfter).Pairwise fun a b => fileNotAfter a b = true := by
  apply List.pairwise_mergeSort
  · intro a b c hab hbc
    rw [fileNotAfter_iff] at hab hbc ⊢
    exact hab.trans hbc
  · intro a b
    rw [Bool.or_eq_true, fileNotAfter_iff, fileNotAfter_iff]
    exact le_total _ _

/-- Sorted entries are in order. -/
theorem pairwise_mergeSort_notAfter (entries : List SymbolEntry) :
    (entries.mergeSort SymbolEntry.notAfter).Pairwise fun a b => a.notAfter b = true := by
  apply List.pairwise_mergeSort
  · intro a b c hab hbc
    rw [SymbolEntry.notAfter_iff] at hab hbc ⊢
    exact hab.trans hbc
  · intro a b
    rw [Bool.or_eq_true, SymbolEntry.notAfter_iff, SymbolEntry.notAfter_iff]
    exact le_total _ _

/-- Of pairs with different keys every pair is the last of its key. -/
theorem lastOfEach_eq_self {pairs : List (String × String)} (h : (pairs.map Prod.fst).Nodup) :
    lastOfEach pairs = pairs := by
  induction pairs with
  | nil => rfl
  | cons pair rest ih =>
    rw [List.map_cons, List.nodup_cons] at h
    have hnew : rest.any (·.1 == pair.1) = false := by
      rw [List.any_eq_false]
      intro other hother heq
      exact h.1 (List.mem_map.mpr ⟨other, hother, by simpa using heq⟩)
    rw [lastOfEach, hnew, ih h.2]
    rfl

variable {documents : List Document}

/-- The files of an index are sorted. -/
theorem pairwise_filePackages (documents : List Document) :
    (build documents).filePackages.Pairwise fun a b => fileNotAfter a b = true :=
  pairwise_mergeSort_fileNotAfter _

/-- The files of an index of documents of different files are theirs, in another order. -/
theorem filePackages_perm (h : (documents.map Document.identifier).Nodup) :
    (build documents).filePackages.Perm (documents.map fun d => (d.identifier, d.package)) := by
  have hkeys : ((documents.map fun d => (d.identifier, d.package)).map Prod.fst).Nodup := by
    rw [List.map_map]
    exact h
  have hlast := lastOfEach_eq_self hkeys
  have hperm := List.mergeSort_perm
    (lastOfEach (documents.map fun d => (d.identifier, d.package))) fileNotAfter
  rw [hlast] at hperm
  show ((lastOfEach (documents.map fun d => (d.identifier, d.package))).mergeSort
    fileNotAfter).Perm _
  rwa [hlast]

/-- An index of documents of different files lists every file with its package. -/
theorem mem_filePackages_iff (h : (documents.map Document.identifier).Nodup)
    {file package : String} : (file, package) ∈ (build documents).filePackages ↔
      ∃ document ∈ documents, document.identifier = file ∧ document.package = package := by
  rw [(filePackages_perm h).mem_iff]
  simp

/-- The files of an index of documents of different files are theirs. -/
theorem mem_files_iff (h : (documents.map Document.identifier).Nodup) {file : String} :
    file ∈ (build documents).files ↔ ∃ document ∈ documents, document.identifier = file := by
  rw [files, ((filePackages_perm h).map Prod.fst).mem_iff]
  simp

/-- No file is listed twice. -/
theorem nodup_filePackages (h : (documents.map Document.identifier).Nodup) :
    (build documents).filePackages.Nodup := by
  rw [(filePackages_perm h).nodup_iff]
  refine List.Nodup.of_map Prod.fst ?_
  rw [List.map_map]
  exact h

/-! ## Files that declare a name -/

/-- The entries of an index are the declarations of its documents. -/
theorem mem_entries_iff {entry : SymbolEntry} :
    entry ∈ (build documents).entries ↔ ∃ document ∈ documents, entry ∈ document.symbols := by
  simp [build, List.mem_mergeSort, List.mem_eraseDups]

/-- The entries of a qualified name are sorted by file. -/
theorem pairwise_lookup (documents : List Document) (qualifiedName : String) :
    ((build documents).lookup qualifiedName).Pairwise fun a b => a.file ≤ b.file := by
  have hsorted := (pairwise_mergeSort_notAfter
    (documents.flatMap Document.symbols).eraseDups).filter (·.qualifiedName == qualifiedName)
  refine hsorted.imp_of_mem ?_
  intro a b ha hb hab
  have haname : a.qualifiedName = qualifiedName := by simpa using (List.mem_filter.mp ha).2
  have hbname : b.qualifiedName = qualifiedName := by simpa using (List.mem_filter.mp hb).2
  rw [SymbolEntry.notAfter_iff, haname, hbname, Prod.Lex.toLex_le_toLex] at hab
  rcases hab with hlt | ⟨-, hle⟩
  · exact absurd hlt (lt_irrefl _)
  · rw [Prod.Lex.toLex_le_toLex] at hle
    rcases hle with hlt | ⟨heq, -⟩
    · exact hlt.le
    · exact heq.le

/-- Of two members of a list without its repetitions, the first one stands before the second one in
the list, and they are different. -/
theorem pairwise_eraseDups {α : Type} [DecidableEq α] {before : α → α → Prop} (list : List α)
    (h : list.Pairwise before) : list.eraseDups.Pairwise fun a b => before a b ∧ a ≠ b := by
  match list with
  | [] => exact List.Pairwise.nil
  | first :: rest =>
    rw [List.pairwise_cons] at h
    rw [List.eraseDups_cons, List.pairwise_cons]
    constructor
    · intro other hother
      rw [List.mem_eraseDups, List.mem_filter] at hother
      have hne : other ≠ first := by simpa using hother.2
      exact ⟨h.1 other hother.1, hne.symm⟩
    · exact pairwise_eraseDups _ (h.2.filter _)
termination_by list.length
decreasing_by
  have := List.length_filter_le (fun other => !other == first) rest
  simp only [List.length_cons]
  omega

/-- The files that declare a name are strictly sorted. -/
theorem pairwise_filesDeclaring (documents : List Document) (package name : String) :
    ((build documents).filesDeclaring package name).Pairwise (· < ·) := by
  -- sorted files are strictly sorted once they are different
  refine (pairwise_eraseDups _ ?_).imp fun h => lt_of_le_of_ne h.1 h.2
  rw [List.pairwise_map]
  exact pairwise_lookup documents (qualify package name)

/-- A file declares a name in a package if an element of its document has the qualified name. -/
theorem mem_filesDeclaring_iff {package name file : String} :
    file ∈ (build documents).filesDeclaring package name ↔ ∃ document ∈ documents,
      document.identifier = file ∧ ∃ element ∈ document.elements,
        element.name.isEmpty = false ∧
          document.qualifiedName element = qualify package name := by
  simp only [filesDeclaring, lookup, List.mem_eraseDups, List.mem_map, List.mem_filter,
    mem_entries_iff, Document.symbols, beq_iff_eq]
  constructor
  · rintro ⟨_, ⟨⟨document, hdocument, element, ⟨helement, hnamed⟩, rfl⟩, hname⟩, rfl⟩
    exact ⟨document, hdocument, rfl, element, helement, by simpa using hnamed, hname⟩
  · rintro ⟨document, hdocument, rfl, element, helement, hnamed, hname⟩
    exact ⟨_, ⟨⟨document, hdocument, element, ⟨helement, by simpa using hnamed⟩, rfl⟩, hname⟩,
      rfl⟩

/-! ## Larger indexes -/

section Larger

variable {part all : List Document} {exempt : String}

/-- The files of an index, apart from an exempt one, are a part of those of a larger index. -/
theorem filePackages_sublist (hpart : (part.map Document.identifier).Nodup)
    (hall : (all.map Document.identifier).Nodup)
    (hsub : ∀ document ∈ part, document.identifier ≠ exempt → document ∈ all)
    (keep : String × String → Bool) (hkeep : ∀ pair, keep pair = true → pair.1 ≠ exempt) :
    ((build part).filePackages.filter keep).Sublist ((build all).filePackages.filter keep) := by
  refine List.sublist_of_subperm_of_pairwise (List.subperm_of_subset ?_ ?_)
    ((pairwise_filePackages part).filter _) ((pairwise_filePackages all).filter _)
  · exact (nodup_filePackages hpart).filter _
  · rintro ⟨file, package⟩ hmem
    rw [List.mem_filter, mem_filePackages_iff hpart] at hmem
    obtain ⟨⟨document, hdocument, rfl, rfl⟩, hkept⟩ := hmem
    rw [List.mem_filter, mem_filePackages_iff hall]
    exact ⟨⟨document, hsub document hdocument (hkeep _ hkept), rfl, rfl⟩, hkept⟩

/-- The files of an index that declare a name, apart from an exempt one, are a part of those of a
larger index. -/
theorem filesDeclaring_sublist
    (hsub : ∀ document ∈ part, document.identifier ≠ exempt → document ∈ all)
    (package name : String) :
    (((build part).filesDeclaring package name).filter (· != exempt)).Sublist
      (((build all).filesDeclaring package name).filter (· != exempt)) := by
  have hsorted : ∀ documents, (((build documents).filesDeclaring package name).filter
      (· != exempt)).Pairwise (· < ·) :=
    fun documents => (pairwise_filesDeclaring documents package name).filter _
  refine List.sublist_of_subperm_of_pairwise
    (List.subperm_of_subset (hsorted part).nodup ?_) (hsorted part) (hsorted all)
  intro file hmem
  rw [List.mem_filter, mem_filesDeclaring_iff] at hmem
  obtain ⟨⟨document, hdocument, rfl, helement⟩, hkept⟩ := hmem
  rw [List.mem_filter, mem_filesDeclaring_iff]
  exact ⟨⟨document, hsub document hdocument (by simpa using hkept), rfl, helement⟩, hkept⟩

end Larger

end SymbolIndex

end FrancaLint
