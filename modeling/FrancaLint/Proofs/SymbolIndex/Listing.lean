import FrancaLint.Proofs.SymbolIndex.Determined

/-! # What an index lists

An index is made to be read: its entries and its files come in a strict order, each declaration has
one entry, and each file one package. Neither the order of the documents nor how often they come
shows, provided that no file has two packages.

* `Declaration`, what an entry stands for, and `Declares`, what some documents declare.
* `pairwise_entries_lt` and `pairwise_filePackages_lt`, the strict orders.
* `mem_entries_iff_declares`: the entries of an index are those of the declarations.
* `index_lists_declarations`, all of it for the index of some documents. -/

namespace FrancaLint

/-! ## Declarations -/

/-- A **declaration** of a name in a file. -/
structure Declaration where
  /-- The package of the file. -/
  package : String
  /-- The declared name. -/
  name : String
  /-- Collection or interface. -/
  kind : ElementKind
  /-- The identifier of the file. -/
  file : String
  deriving DecidableEq, Repr

/-- The name that the declared element has everywhere. -/
def Declaration.qualifiedName (declaration : Declaration) : String :=
  qualify declaration.package declaration.name

/-- Some document of the file and the package has a named element of the kind. -/
def Declares (documents : List Document) (declaration : Declaration) : Prop :=
  ∃ document ∈ documents, document.package = declaration.package ∧
    document.identifier = declaration.file ∧
    ∃ element ∈ document.elements, element.name = declaration.name ∧
      element.kind = declaration.kind ∧ element.name ≠ ""

namespace SymbolEntry

/-- The declaration that an entry stands for. -/
def declaration (entry : SymbolEntry) : Declaration :=
  ⟨entry.package, entry.name, entry.kind, entry.file⟩

/-- What entries are sorted by: the qualified name, then the file, then the kind. -/
def sortKey (entry : SymbolEntry) : String ×ₗ String ×ₗ String :=
  toLex (entry.qualifiedName, toLex (entry.file, entry.kind.keyword))

/-- An entry with the qualified name of its declaration is determined by the declaration. -/
theorem eq_of_declaration_eq {a b : SymbolEntry}
    (ha : a.qualifiedName = a.declaration.qualifiedName)
    (hb : b.qualifiedName = b.declaration.qualifiedName) (h : a.declaration = b.declaration) :
    a = b := by
  have hname : a.qualifiedName = b.qualifiedName := by rw [ha, hb, h]
  cases a
  cases b
  rw [declaration, declaration, Declaration.mk.injEq] at h
  obtain ⟨rfl, rfl, rfl, rfl⟩ := h
  cases hname
  rfl

end SymbolEntry

/-- Documents in another order give every file the same packages. -/
theorem OnePackage.perm {documents others : List Document} (h : OnePackage documents)
    (hperm : others.Perm documents) : OnePackage others :=
  fun document hdocument other hother =>
    h document (hperm.mem_iff.mp hdocument) other (hperm.mem_iff.mp hother)

namespace SymbolIndex

variable {documents : List Document}

/-! ## Entries -/

/-- The entries of an index are those of the declarations, under their qualified names. -/
theorem mem_entries_iff_declares {entry : SymbolEntry} :
    entry ∈ (build documents).entries ↔
      Declares documents entry.declaration ∧
        entry.qualifiedName = entry.declaration.qualifiedName := by
  rw [mem_entries_iff]
  constructor
  · rintro ⟨document, hdocument, hentry⟩
    obtain ⟨element, helement, rfl⟩ := List.mem_map.mp hentry
    rw [List.mem_filter] at helement
    have hname : element.name ≠ "" := by simpa using helement.2
    exact ⟨⟨document, hdocument, rfl, rfl, element, helement.1, rfl, rfl, hname⟩, rfl⟩
  · rintro ⟨⟨document, hdocument, hpackage, hfile, element, helement, hname, hkind, hnamed⟩, heq⟩
    refine ⟨document, hdocument, List.mem_map.mpr ⟨element, List.mem_filter.mpr ⟨helement, ?_⟩, ?_⟩⟩
    · simpa using hnamed
    · refine SymbolEntry.eq_of_declaration_eq rfl heq ?_
      rw [SymbolEntry.declaration, hname, hkind, hpackage]
      exact congrArg _ hfile

/-- The entries are strictly sorted: the file determines the package, which determines the name that
is left of a qualified name. -/
theorem pairwise_entries_lt (h : OnePackage documents) :
    (build documents).entries.Pairwise fun a b => a.sortKey < b.sortKey := by
  have hsorted : (build documents).entries.Pairwise fun a b => a.notAfter b = true :=
    pairwise_mergeSort_notAfter _
  -- different entries in order are strictly in order, unless their keys are equal
  refine (hsorted.and (nodup_entries documents)).imp_of_mem ?_
  rintro a b ha hb ⟨hab, hne⟩
  refine lt_of_le_of_ne ((SymbolEntry.notAfter_iff a b).mp hab) fun heq => hne ?_
  exact eq_of_mem_entries h ha hb hab ((SymbolEntry.notAfter_iff b a).mpr heq.ge)

/-- No declaration has two entries. -/
theorem nodup_declarations (documents : List Document) :
    ((build documents).entries.map SymbolEntry.declaration).Nodup := by
  refine (List.nodup_map_iff_inj_on (nodup_entries documents)).mpr fun a ha b hb heq => ?_
  exact SymbolEntry.eq_of_declaration_eq (mem_entries_iff_declares.mp ha).2
    (mem_entries_iff_declares.mp hb).2 heq

/-- Every declaration has an entry. -/
theorem mem_declarations_iff {declaration : Declaration} :
    declaration ∈ (build documents).entries.map SymbolEntry.declaration ↔
      Declares documents declaration := by
  rw [List.mem_map]
  constructor
  · rintro ⟨entry, hentry, rfl⟩
    exact (mem_entries_iff_declares.mp hentry).1
  · intro h
    refine ⟨⟨declaration.qualifiedName, declaration.file, declaration.package, declaration.name,
      declaration.kind⟩, ?_, rfl⟩
    exact mem_entries_iff_declares.mpr ⟨h, rfl⟩

/-- The entries that are found under a qualified name are those of the declarations with that
name. -/
theorem mem_lookup_iff_declares {qualifiedName : String} {entry : SymbolEntry} :
    entry ∈ (build documents).lookup qualifiedName ↔
      Declares documents entry.declaration ∧ entry.declaration.qualifiedName = qualifiedName ∧
        entry.qualifiedName = qualifiedName := by
  rw [lookup, List.mem_filter, mem_entries_iff_declares, beq_iff_eq]
  constructor
  · rintro ⟨⟨hdeclares, heq⟩, rfl⟩
    exact ⟨hdeclares, heq.symm, rfl⟩
  · rintro ⟨hdeclares, rfl, heq⟩
    exact ⟨⟨hdeclares, heq⟩, heq⟩

/-! ## Files -/

/-- The files are strictly sorted by package, then identifier. -/
theorem pairwise_filePackages_lt (documents : List Document) :
    (build documents).filePackages.Pairwise fun a b => toLex (a.2, a.1) < toLex (b.2, b.1) := by
  have hfiles : (build documents).filePackages.Pairwise fun a b => a.1 ≠ b.1 :=
    List.pairwise_map.mp (nodup_files documents)
  refine ((pairwise_filePackages documents).and hfiles).imp ?_
  rintro a b ⟨hab, hne⟩
  refine lt_of_le_of_ne ((fileNotAfter_iff a b).mp hab) fun heq => hne ?_
  exact congrArg (fun key => (ofLex key).2) heq

/-! ## Documents in another order -/

/-- Documents in another order make the same index. -/
theorem build_eq_of_perm {others : List Document} (h : OnePackage documents)
    (hperm : others.Perm documents) : build others = build documents := by
  refine build_eq_of_declares (h.perm hperm) h ?_ ?_
  · intro document hdocument
    exact ⟨document, hperm.mem_iff.mp hdocument, rfl, rfl, fun _ => Iff.rfl⟩
  · intro document hdocument
    exact ⟨document, hperm.mem_iff.mpr hdocument, rfl, rfl, fun _ => Iff.rfl⟩

/-! ## The whole index -/

/-- **An index lists declarations.** Let no file have two packages among some documents. Their index
is that of the documents in any other order. Its entries are strictly sorted; there is one of them
for each declaration with a name, under its qualified name, and no other. Under a qualified name the
entries with that name are found, one for each declaration of it. Its files are strictly sorted;
every document has its file among them once, with the package of the document, whether it declares
a name or not. -/
theorem index_lists_declarations (documents : List Document) (h : OnePackage documents) :
    let index := build documents
    (∀ others, others.Perm documents → build others = index) ∧
    index.entries.Pairwise (fun a b => a.sortKey < b.sortKey) ∧
    (index.entries.map SymbolEntry.declaration).Nodup ∧
    (∀ declaration, declaration ∈ index.entries.map SymbolEntry.declaration ↔
      Declares documents declaration) ∧
    (∀ entry ∈ index.entries, entry.qualifiedName = entry.declaration.qualifiedName) ∧
    (∀ qualifiedName entry, entry ∈ index.lookup qualifiedName ↔
      entry ∈ index.entries ∧ entry.qualifiedName = qualifiedName) ∧
    (∀ qualifiedName entry, entry ∈ index.lookup qualifiedName ↔
      Declares documents entry.declaration ∧ entry.declaration.qualifiedName = qualifiedName ∧
        entry.qualifiedName = qualifiedName) ∧
    (index.filePackages.map Prod.fst).Nodup ∧
    (∀ file package, (file, package) ∈ index.filePackages ↔
      ∃ document ∈ documents, Path.normalize document.sourcePath = file ∧
        document.package = package) ∧
    index.filePackages.Pairwise (fun a b => toLex (a.2, a.1) < toLex (b.2, b.1)) := by
  intro index
  refine ⟨fun others hperm => build_eq_of_perm h hperm, pairwise_entries_lt h,
    nodup_declarations documents, fun _ => mem_declarations_iff,
    fun _ hentry => (mem_entries_iff_declares.mp hentry).2, fun qualifiedName entry => ?_,
    fun _ _ => mem_lookup_iff_declares, nodup_files documents,
    fun _ _ => mem_filePackages_iff_of_onePackage h, pairwise_filePackages_lt documents⟩
  rw [lookup, List.mem_filter, beq_iff_eq]

/-- Two documents of one file, which is spelled in two ways, a third one that declares an interface
and a collection of one name, and one with nothing but an anonymous collection. -/
def splitDocuments : List Document :=
  [{ package := "p", sourcePath := "/p/b.fidl", typeCollections := [{ name := "T" }] },
    { package := "", sourcePath := "/c.fidl", typeCollections := [{ name := "" }] },
    { package := "p", sourcePath := "/p/a.fidl", typeCollections := [{ name := "T" }],
      interfaces := [{ name := "T" }] },
    { package := "p", sourcePath := "C:\\p\\b.fidl", typeCollections := [{ name := "T" }],
      interfaces := [{ name := "I" }] }]

/-- The file with two documents has its entry, the interface is found under its qualified name with
no entry of another name, and the file without names is listed. -/
theorem listing_splitDocuments :
    OnePackage splitDocuments ∧
    build splitDocuments.reverse = build splitDocuments ∧
    ⟨"p", "T", .typeCollection, "/p/b.fidl"⟩ ∈
      (build splitDocuments).entries.map SymbolEntry.declaration ∧
    ⟨"p.T", "/p/a.fidl", "p", "T", .interface⟩ ∈ (build splitDocuments).lookup "p.T" ∧
    ⟨"p.I", "/p/b.fidl", "p", "I", .interface⟩ ∉ (build splitDocuments).lookup "p.T" ∧
    ("/c.fidl", "") ∈ (build splitDocuments).filePackages := by
  have hpackage : OnePackage splitDocuments := by
    unfold OnePackage
    decide +kernel
  obtain ⟨hperm, -, -, hentries, -, -, hlookup, -, hfiles, -⟩ :=
    index_lists_declarations splitDocuments hpackage
  refine ⟨hpackage, hperm _ (List.reverse_perm _), ?_, ?_, ?_, ?_⟩
  · refine (hentries _).mpr ?_
    unfold Declares
    decide +kernel
  · refine (hlookup _ _).mpr ⟨?_, rfl, rfl⟩
    unfold Declares
    decide +kernel
  · rw [hlookup]
    rintro ⟨-, -, heq⟩
    exact absurd heq (by decide)
  · refine (hfiles _ _).mpr ?_
    decide +kernel

end SymbolIndex

end FrancaLint
