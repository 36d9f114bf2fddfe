import FrancaLint.Proofs.SymbolIndex.Order
import Mathlib.Data.List.Nodup

/-! # What determines an index

An index is sorted, so documents that declare the same make the same index, in whatever order and
however often they are listed. The order of entries looks neither at packages nor at names; that it
determines them rests on every file having one package.

* `OnePackage`, documents of which no two give one file different packages.
* `mem_filePackages_iff_of_onePackage` and `eq_of_mem_entries`: files and entries of their index.
* `build_eq_of_declares`: documents that declare the same make the same index. -/

namespace FrancaLint

/-- No two of the documents give **one file two packages**. -/
def OnePackage (documents : List Document) : Prop :=
  ∀ document ∈ documents, ∀ other ∈ documents, document.identifier = other.identifier →
    document.package = other.package

/-- Documents of different files give every file one package. -/
theorem onePackage_of_nodup {documents : List Document}
    (h : (documents.map Document.identifier).Nodup) : OnePackage documents := by
  intro document hdocument other hother heq
  rw [List.inj_on_of_nodup_map h hdocument hother heq]

/-- Names are told apart inside a package. -/
theorem eq_of_qualify_eq {package name other : String}
    (h : qualify package name = qualify package other) : name = other := by
  unfold qualify at h
  split at h
  · exact h
  · exact String.append_right_inj _ |>.mp h

/-- Kinds are told apart by their keywords. -/
theorem ElementKind.eq_of_keyword_eq {kind other : ElementKind}
    (h : kind.keyword = other.keyword) : kind = other := by
  cases kind <;> cases other <;> simp [ElementKind.keyword] at h ⊢

/-! ## Declared names -/

/-- The names of the named elements of a document, with their kinds. -/
def Document.declaredNames (document : Document) : List (String × ElementKind) :=
  (document.elements.filter fun element => !element.name.isEmpty).map fun element =>
    (element.name, element.kind)

/-- Two documents **declare the same**: they have one package and the same named elements. -/
def Document.DeclaresAs (document other : Document) : Prop :=
  document.package = other.package ∧
    ∀ named, named ∈ document.declaredNames ↔ named ∈ other.declaredNames

/-- The entry of a declared name of a document. -/
def Document.symbol (document : Document) (named : String × ElementKind) : SymbolEntry where
  qualifiedName := qualify document.package named.1
  file := document.identifier
  package := document.package
  name := named.1
  kind := named.2

/-- The entries of a document are those of its declared names. -/
theorem Document.mem_symbols_iff {document : Document} {entry : SymbolEntry} :
    entry ∈ document.symbols ↔ ∃ named ∈ document.declaredNames, document.symbol named = entry := by
  have hmap : document.symbols = document.declaredNames.map document.symbol := by
    rw [Document.symbols, Document.declaredNames, List.map_map]
    rfl
  rw [hmap, List.mem_map]

/-- Documents of one file that declare the same have the same entries. -/
theorem Document.DeclaresAs.mem_symbols_iff {document other : Document}
    (h : document.DeclaresAs other) (hfile : document.identifier = other.identifier)
    {entry : SymbolEntry} : entry ∈ document.symbols ↔ entry ∈ other.symbols := by
  have hsymbol : document.symbol = other.symbol := by
    funext named
    rw [Document.symbol, Document.symbol, h.1, hfile]
  rw [Document.mem_symbols_iff, Document.mem_symbols_iff, hsymbol]
  constructor
  · rintro ⟨named, hnamed, heq⟩
    exact ⟨named, (h.2 named).mp hnamed, heq⟩
  · rintro ⟨named, hnamed, heq⟩
    exact ⟨named, (h.2 named).mpr hnamed, heq⟩

namespace SymbolIndex

/-! ## Files -/

/-- The last pairs are some of the pairs. -/
theorem mem_of_mem_lastOfEach {pairs : List (String × String)} {pair : String × String}
    (h : pair ∈ lastOfEach pairs) : pair ∈ pairs := by
  induction pairs with
  | nil => exact h
  | cons first rest ih =>
    unfold lastOfEach at h
    split at h
    · exact List.mem_cons_of_mem _ (ih h)
    · rcases List.mem_cons.mp h with rfl | h
      · exact List.mem_cons_self
      · exact List.mem_cons_of_mem _ (ih h)

/-- The last pairs of their keys have different keys. -/
theorem nodup_lastOfEach (pairs : List (String × String)) :
    ((lastOfEach pairs).map Prod.fst).Nodup := by
  induction pairs with
  | nil => exact List.nodup_nil
  | cons first rest ih =>
    unfold lastOfEach
    split
    · exact ih
    · rename_i hlast
      rw [List.map_cons, List.nodup_cons]
      refine ⟨fun hmem => hlast ?_, ih⟩
      obtain ⟨other, hother, heq⟩ := List.mem_map.mp hmem
      exact List.any_eq_true.mpr ⟨other, mem_of_mem_lastOfEach hother, by simpa using heq⟩

/-- Where every key has one value, every pair is the last of its key. -/
theorem mem_lastOfEach_iff {pairs : List (String × String)}
    (hvalue : ∀ pair ∈ pairs, ∀ other ∈ pairs, pair.1 = other.1 → pair = other)
    {pair : String × String} : pair ∈ lastOfEach pairs ↔ pair ∈ pairs := by
  refine ⟨mem_of_mem_lastOfEach, fun h => ?_⟩
  induction pairs with
  | nil => exact h
  | cons first rest ih =>
    have hrest := ih fun a ha b hb =>
      hvalue a (List.mem_cons_of_mem _ ha) b (List.mem_cons_of_mem _ hb)
    unfold lastOfEach
    split
    · rename_i hagain
      rcases List.mem_cons.mp h with rfl | h
      · -- the pair that comes again has the same value
        obtain ⟨other, hother, heq⟩ := List.any_eq_true.mp hagain
        have hsame := hvalue other (List.mem_cons_of_mem _ hother) pair List.mem_cons_self
          (by simpa using heq)
        exact hrest (hsame ▸ hother)
      · exact hrest h
    · rcases List.mem_cons.mp h with rfl | h
      · exact List.mem_cons_self
      · exact List.mem_cons_of_mem _ (hrest h)

variable {documents : List Document}

/-- The index of documents that give every file one package lists every file with its package. -/
theorem mem_filePackages_iff_of_onePackage (h : OnePackage documents) {file package : String} :
    (file, package) ∈ (build documents).filePackages ↔
      ∃ document ∈ documents, document.identifier = file ∧ document.package = package := by
  have hvalue : ∀ pair ∈ documents.map (fun d => (d.identifier, d.package)),
      ∀ other ∈ documents.map (fun d => (d.identifier, d.package)),
        pair.1 = other.1 → pair = other := by
    intro pair hpair other hother heq
    obtain ⟨document, hdocument, rfl⟩ := List.mem_map.mp hpair
    obtain ⟨another, hanother, rfl⟩ := List.mem_map.mp hother
    exact Prod.ext heq (h document hdocument another hanother heq)
  show (file, package) ∈ (lastOfEach (documents.map fun d => (d.identifier, d.package))).mergeSort
    fileNotAfter ↔ _
  rw [List.mem_mergeSort, mem_lastOfEach_iff hvalue]
  simp

/-- No index lists a file twice. -/
theorem nodup_files (documents : List Document) : (build documents).files.Nodup :=
  ((List.mergeSort_perm _ fileNotAfter).map Prod.fst).nodup_iff.mpr (nodup_lastOfEach _)

/-! ## Entries -/

/-- Entries of documents that give every file one package are the same if neither comes before the
other: the file determines the package, and the package and the qualified name determine the
name. -/
theorem eq_of_mem_entries (h : OnePackage documents) {a b : SymbolEntry}
    (ha : a ∈ (build documents).entries) (hb : b ∈ (build documents).entries)
    (hab : a.notAfter b = true) (hba : b.notAfter a = true) : a = b := by
  rw [SymbolEntry.notAfter_iff] at hab hba
  have heq := congrArg ofLex (le_antisymm hab hba)
  rw [ofLex_toLex, ofLex_toLex, Prod.mk.injEq, toLex_inj, Prod.mk.injEq] at heq
  obtain ⟨document, hdocument, ha⟩ := mem_entries_iff.mp ha
  obtain ⟨⟨name, kind⟩, -, rfl⟩ := Document.mem_symbols_iff.mp ha
  obtain ⟨other, hother, hb⟩ := mem_entries_iff.mp hb
  obtain ⟨⟨name', kind'⟩, -, rfl⟩ := Document.mem_symbols_iff.mp hb
  obtain ⟨hname, hfile, hkind⟩ := heq
  have hpackage : document.package = other.package := h document hdocument other hother hfile
  have hfile' : document.identifier = other.identifier := hfile
  have hname' : name = name' := by
    have hqualified : qualify document.package name = qualify other.package name' := hname
    rw [hpackage] at hqualified
    exact eq_of_qualify_eq hqualified
  have hkind' : kind = kind' := ElementKind.eq_of_keyword_eq hkind
  rw [Document.symbol, Document.symbol, hpackage, hfile', hname', hkind']

/-- No index lists an entry twice. -/
theorem nodup_entries (documents : List Document) : (build documents).entries.Nodup := by
  refine (List.mergeSort_perm _ SymbolEntry.notAfter).nodup_iff.mpr ?_
  have hany : (documents.flatMap Document.symbols).Pairwise fun _ _ => True :=
    List.pairwise_of_forall fun _ _ => trivial
  exact (pairwise_eraseDups _ hany).imp And.right

/-! ## Indexes of the same declarations -/

/-- **Documents that declare the same make the same index**, whatever their order and however often
they are listed. -/
theorem build_eq_of_declares {others : List Document} (h : OnePackage documents)
    (hothers : OnePackage others)
    (hinto : ∀ document ∈ documents, ∃ other ∈ others,
      document.identifier = other.identifier ∧ document.DeclaresAs other)
    (hback : ∀ other ∈ others, ∃ document ∈ documents,
      document.identifier = other.identifier ∧ document.DeclaresAs other) :
    build documents = build others := by
  have hentries : ∀ entry,
      entry ∈ (build documents).entries ↔ entry ∈ (build others).entries := by
    intro entry
    rw [mem_entries_iff, mem_entries_iff]
    constructor
    · rintro ⟨document, hdocument, hentry⟩
      obtain ⟨other, hother, hfile, hsame⟩ := hinto document hdocument
      exact ⟨other, hother, (hsame.mem_symbols_iff hfile).mp hentry⟩
    · rintro ⟨other, hother, hentry⟩
      obtain ⟨document, hdocument, hfile, hsame⟩ := hback other hother
      exact ⟨document, hdocument, (hsame.mem_symbols_iff hfile).mpr hentry⟩
  have hfiles : ∀ pair,
      pair ∈ (build documents).filePackages ↔ pair ∈ (build others).filePackages := by
    rintro ⟨file, package⟩
    rw [mem_filePackages_iff_of_onePackage h, mem_filePackages_iff_of_onePackage hothers]
    constructor
    · rintro ⟨document, hdocument, rfl, rfl⟩
      obtain ⟨other, hother, hfile, hsame⟩ := hinto document hdocument
      exact ⟨other, hother, hfile.symm, hsame.1.symm⟩
    · rintro ⟨other, hother, rfl, rfl⟩
      obtain ⟨document, hdocument, hfile, hsame⟩ := hback other hother
      exact ⟨document, hdocument, hfile, hsame.1⟩
  have hentries' : (build documents).entries = (build others).entries :=
    List.Perm.eq_of_pairwise
      (fun a b ha hb => eq_of_mem_entries h ha ((hentries b).mpr hb))
      (pairwise_mergeSort_notAfter _) (pairwise_mergeSort_notAfter _)
      ((List.perm_ext_iff_of_nodup (nodup_entries _) (nodup_entries _)).mpr hentries)
  have hfiles' : (build documents).filePackages = (build others).filePackages :=
    List.Perm.eq_of_pairwise (fun a b _ _ => antisymm)
      (pairwise_filePackages documents) (pairwise_filePackages others)
      ((List.perm_ext_iff_of_nodup (.of_map _ (nodup_files _)) (.of_map _ (nodup_files _))).mpr
        hfiles)
  calc build documents
      = ⟨(build documents).entries, (build documents).filePackages⟩ := rfl
    _ = ⟨(build others).entries, (build others).filePackages⟩ := by rw [hentries', hfiles']
    _ = build others := rfl

end SymbolIndex

end FrancaLint
