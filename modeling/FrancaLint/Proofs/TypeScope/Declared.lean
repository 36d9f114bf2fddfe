import FrancaLint.TypeScope
import FrancaLint.Proofs.Graph.Reachability

/-! # What a reference means is declared

Whatever a reference in a document of a scope means is a declaration of a document of that scope, so
the graph of type references never leaves the declared types.

* `Declared`, the sites of the documents.
* `StandsAt`, where a declaration at hand stands: `standsAt_ownerOf`; `ownerOf_of_nodup`, at its own
  place where no two declarations have the same name.
* `found_of_resolve`, where the meaning of a reference is found.
* `declared_of_lookup`, `declared_of_resolve` and `declared_of_mem_edges`. -/

namespace FrancaLint

variable {documents : List Document}

/-- The site of a type that one of the documents **declares**. -/
def Declared (documents : List Document) (site : Site) : Prop :=
  site ∈ documents.flatMap Document.sites

/-- The element belongs to one of the documents. -/
def DeclaredIn (documents : List Document) (place : Document × Element) : Prop :=
  place.1 ∈ documents ∧ place.2 ∈ place.1.elements

/-- The declarations of a document are the types of its elements. -/
theorem Document.mem_declarations_iff {document : Document} {element : Element}
    {decl : TypeDecl} : (element, decl) ∈ document.declarations ↔
      element ∈ document.elements ∧ decl ∈ element.types := by
  unfold Document.declarations
  constructor
  · intro h
    obtain ⟨other, helement, hpair⟩ := List.mem_flatMap.mp h
    obtain ⟨_, hdecl, heq⟩ := List.mem_map.mp hpair
    obtain ⟨rfl, rfl⟩ := Prod.mk.inj heq
    exact ⟨helement, hdecl⟩
  · rintro ⟨helement, hdecl⟩
    exact List.mem_flatMap.mpr ⟨element, helement, List.mem_map.mpr ⟨decl, hdecl, rfl⟩⟩

/-- The sites of a document are those of the types of its elements. -/
theorem Document.mem_sites_iff {document : Document} {site : Site} :
    site ∈ document.sites ↔ ∃ element ∈ document.elements, ∃ decl ∈ element.types,
      site = Site.of document element decl := by
  unfold Document.sites
  constructor
  · intro h
    obtain ⟨⟨element, decl⟩, hmem, rfl⟩ := List.mem_map.mp h
    obtain ⟨helement, hdecl⟩ := Document.mem_declarations_iff.mp hmem
    exact ⟨element, helement, decl, hdecl, rfl⟩
  · rintro ⟨element, helement, decl, hdecl, rfl⟩
    exact List.mem_map.mpr
      ⟨(element, decl), Document.mem_declarations_iff.mpr ⟨helement, hdecl⟩, rfl⟩

/-- A declared site is that of a type of an element of one of the documents. -/
theorem declared_iff {site : Site} : Declared documents site ↔
    ∃ document ∈ documents, ∃ element ∈ document.elements, ∃ decl ∈ element.types,
      site = Site.of document element decl := by
  simp only [Declared, List.mem_flatMap, Document.mem_sites_iff]

/-- A declared site lies in an element of one of the documents. -/
theorem Declared.place {site : Site} (h : Declared documents site) :
    DeclaredIn documents (site.document, site.element) := by
  obtain ⟨document, hdocument, element, helement, decl, -, rfl⟩ := declared_iff.mp h
  exact ⟨hdocument, helement⟩

namespace TypeScope

/-- What is looked up is declared, under the name that it was looked up by. -/
theorem declared_of_lookup {name : String} {site : Site}
    (h : (ofDocuments documents).lookup name = some site) :
    Declared documents site ∧ site.name = name := by
  have hmem : (name, site) ∈ (ofDocuments documents).types := Graph.mem_of_lookup h
  obtain ⟨document, hdocument, hpair⟩ := List.mem_flatMap.mp hmem
  obtain ⟨other, hother, heq⟩ := List.mem_map.mp hpair
  obtain ⟨rfl, rfl⟩ := Prod.mk.inj heq
  exact ⟨List.mem_flatMap.mpr ⟨document, hdocument, hother⟩, rfl⟩

/-- The names of declared sites are known to the scope. -/
theorem name_mem_of_declared {site : Site} (h : Declared documents site) :
    site.name ∈ (ofDocuments documents).types.map Prod.fst := by
  obtain ⟨document, hdocument, hsite⟩ := List.mem_flatMap.mp h
  refine List.mem_map.mpr ⟨(site.name, site), ?_, rfl⟩
  exact List.mem_flatMap.mpr ⟨document, hdocument, List.mem_map.mpr ⟨site, hsite, rfl⟩⟩

/-! ## Where a declaration stands -/

section Owner

variable {scope : TypeScope} {document : Document} {element : Element} {decl : TypeDecl}

/-- A declaration at a place **stands at** a site: this is the place itself, or the declaration is
one object that is known by its name to stand there. -/
def StandsAt (scope : TypeScope) (place : Document × Element) (decl : TypeDecl) (site : Site) :
    Prop :=
  site.decl = decl ∧ (site = Site.of place.1 place.2 decl ∨
    decl.identity.isSome ∧ scope.lookup (place.1.typeName place.2 decl) = some site)

/-- A declaration at hand stands at its own place, or it is an object that is known by its name to
stand at another one. -/
theorem ownerOf_cases (scope : TypeScope) (document : Document) (element : Element)
    (decl : TypeDecl) : scope.ownerOf document element decl = Site.of document element decl ∨
      decl.identity.isSome ∧ (scope.ownerOf document element decl).decl = decl ∧
        scope.lookup (document.typeName element decl) =
          some (scope.ownerOf document element decl) := by
  unfold ownerOf
  split
  · exact Or.inl rfl
  · rename_i found hfound
    split
    · rename_i hsame
      rw [TypeDecl.isSame, Bool.and_eq_true, beq_iff_eq] at hsame
      exact Or.inr ⟨hsame.2 ▸ hsame.1, hsame.2, hfound⟩
    · exact Or.inl rfl

/-- Wherever a declaration stands, it is the same. -/
@[simp] theorem decl_ownerOf : (scope.ownerOf document element decl).decl = decl := by
  rcases ownerOf_cases scope document element decl with heq | ⟨-, heq, -⟩
  · rw [heq]
    rfl
  · exact heq

/-- A declaration at hand stands at its site. -/
theorem standsAt_ownerOf (scope : TypeScope) (place : Document × Element) (decl : TypeDecl) :
    scope.StandsAt place decl (scope.ownerOf place.1 place.2 decl) :=
  ⟨decl_ownerOf, (ownerOf_cases scope place.1 place.2 decl).imp_right fun h => ⟨h.1, h.2.2⟩⟩

/-- A declaration that is an object of its own stands at its own place. -/
theorem ownerOf_of_identity_eq_none (h : decl.identity = none) :
    scope.ownerOf document element decl = Site.of document element decl := by
  rcases ownerOf_cases scope document element decl with heq | ⟨hshared, -⟩
  · exact heq
  · rw [h] at hshared
    cases hshared

/-- A declaration has the name that it has everywhere, wherever it stands. -/
theorem name_ownerOf : ((ofDocuments documents).ownerOf document element decl).name =
    document.typeName element decl := by
  rcases ownerOf_cases (ofDocuments documents) document element decl with heq | ⟨-, -, hlookup⟩
  · rw [heq]
    rfl
  · exact (declared_of_lookup hlookup).2

/-- A declaration of the documents stands at a place of theirs. -/
theorem declared_ownerOf (hdocument : document ∈ documents) (helement : element ∈ document.elements)
    (hdecl : decl ∈ element.types) :
    Declared documents ((ofDocuments documents).ownerOf document element decl) := by
  rcases ownerOf_cases (ofDocuments documents) document element decl with heq | ⟨-, -, hlookup⟩
  · rw [heq]
    exact declared_iff.mpr ⟨_, hdocument, _, helement, decl, hdecl, rfl⟩
  · exact (declared_of_lookup hlookup).1

/-- Where no two declarations have the same name, each stands at its own place. -/
theorem ownerOf_of_nodup (hunique : ((documents.flatMap Document.sites).map Site.name).Nodup)
    (hdocument : document ∈ documents) (helement : element ∈ document.elements)
    (hdecl : decl ∈ element.types) :
    (ofDocuments documents).ownerOf document element decl = Site.of document element decl := by
  have hown : Declared documents (Site.of document element decl) :=
    declared_iff.mpr ⟨_, hdocument, _, helement, decl, hdecl, rfl⟩
  have howner : Declared documents ((ofDocuments documents).ownerOf document element decl) :=
    declared_ownerOf hdocument helement hdecl
  exact List.inj_on_of_nodup_map hunique howner hown name_ownerOf

/-- The sites of the types of a document, each where its declaration stands. -/
theorem mem_typesOf_iff {site : Site} : site ∈ scope.typesOf document ↔
    ∃ element ∈ document.elements, ∃ decl ∈ element.types,
      site = scope.ownerOf document element decl := by
  unfold typesOf
  constructor
  · intro h
    obtain ⟨⟨element, decl⟩, hmem, rfl⟩ := List.mem_map.mp h
    obtain ⟨helement, hdecl⟩ := Document.mem_declarations_iff.mp hmem
    exact ⟨element, helement, decl, hdecl, rfl⟩
  · rintro ⟨element, helement, decl, hdecl, rfl⟩
    exact List.mem_map.mpr
      ⟨(element, decl), Document.mem_declarations_iff.mpr ⟨helement, hdecl⟩, rfl⟩

/-- The types of a document of the scope are declared. -/
theorem declared_of_mem_typesOf (hdocument : document ∈ documents) :
    ∀ site ∈ (ofDocuments documents).typesOf document, Declared documents site := by
  intro site hsite
  obtain ⟨element, helement, decl, hdecl, rfl⟩ := mem_typesOf_iff.mp hsite
  exact declared_ownerOf hdocument helement hdecl

/-- Where no two declarations have the same name, the types of a document stand at their own
places. -/
theorem typesOf_eq_sites (hunique : ((documents.flatMap Document.sites).map Site.name).Nodup)
    (hdocument : document ∈ documents) :
    (ofDocuments documents).typesOf document = document.sites := by
  refine List.map_congr_left fun ⟨element, decl⟩ hmem => ?_
  obtain ⟨helement, hdecl⟩ := Document.mem_declarations_iff.mp hmem
  exact ownerOf_of_nodup hunique hdocument helement hdecl

/-- Declarations that are objects of their own stand at their own places. -/
theorem typesOf_eq_sites_of_identity
    (h : ∀ element ∈ document.elements, ∀ decl ∈ element.types, decl.identity = none) :
    scope.typesOf document = document.sites := by
  refine List.map_congr_left fun ⟨element, decl⟩ hmem => ?_
  obtain ⟨helement, hdecl⟩ := Document.mem_declarations_iff.mp hmem
  exact ownerOf_of_identity_eq_none (h element helement decl hdecl)

end Owner

/-! ## What a name means -/

/-- One step leads to one of the named elements. -/
theorem mem_elements_of_base? {scope : TypeScope} {place next : Document × Element}
    (h : scope.base? place = some next) : next ∈ scope.elements.map Prod.snd := by
  have hbase : ∃ base, scope.baseElement? place.1 base = some next := by
    unfold base? at h
    split at h
    · cases h
    · split at h
      · cases h
      · exact ⟨_, h⟩
  obtain ⟨base, hbase⟩ := hbase
  have hlookup : ∃ name, scope.elements.lookup name = some next := by
    unfold baseElement? at hbase
    split at hbase
    · rename_i found hfound
      exact ⟨_, hfound.trans hbase⟩
    · exact ⟨_, hbase⟩
  obtain ⟨name, hlookup⟩ := hlookup
  exact List.mem_map.mpr ⟨_, Graph.mem_of_lookup hlookup, rfl⟩

/-- What an element extends are named elements. -/
theorem eq_or_mem_elements_of_mem_baseChain {scope : TypeScope} {length : Nat}
    {seen : List (Document × Element)} {start place : Document × Element}
    (hmem : place ∈ scope.baseChain length seen start) :
    place = start ∨ place ∈ scope.elements.map Prod.snd := by
  induction length generalizing seen start with
  | zero => exact absurd hmem List.not_mem_nil
  | succ length ih =>
    rw [baseChain] at hmem
    split at hmem
    · exact absurd hmem List.not_mem_nil
    rcases List.mem_cons.mp hmem with rfl | hmem
    · exact Or.inl rfl
    · split at hmem
      · exact absurd hmem List.not_mem_nil
      · rename_i next hbase
        exact Or.inr ((ih hmem).elim (fun heq => heq ▸ mem_elements_of_base? hbase) id)

/-- The named elements belong to the documents. -/
theorem declaredIn_of_mem_elements {place : Document × Element}
    (h : place ∈ (ofDocuments documents).elements.map Prod.snd) : DeclaredIn documents place := by
  obtain ⟨entry, hentry, rfl⟩ := List.mem_map.mp h
  obtain ⟨document, hdocument, hnamed⟩ := List.mem_flatMap.mp hentry
  obtain ⟨element, helement, rfl⟩ := List.mem_map.mp hnamed
  exact ⟨hdocument, (List.mem_filter.mp helement).1⟩

/-- The elements that an element extends belong to the documents. -/
theorem eq_or_declaredIn_of_mem_baseChain {length : Nat} {seen : List (Document × Element)}
    {start place : Document × Element}
    (hmem : place ∈ (ofDocuments documents).baseChain length seen start) :
    place = start ∨ DeclaredIn documents place :=
  (eq_or_mem_elements_of_mem_baseChain hmem).imp_right declaredIn_of_mem_elements

/-- The anonymous type collections of a document belong to it. -/
theorem declaredIn_of_mem_anonymousElements {document : Document} (h : document ∈ documents)
    {place : Document × Element} (hmem : place ∈ anonymousElements document) :
    DeclaredIn documents place := by
  obtain ⟨collection, hcollection, rfl⟩ := List.mem_map.mp hmem
  refine ⟨h, List.mem_append_left _ (List.mem_map.mpr ⟨collection, ?_, rfl⟩)⟩
  exact (List.mem_filter.mp hcollection).1

/-- What a reference means is found by its name or near the reference. -/
theorem found_of_resolve {scope : TypeScope} {ref : TypeRef} {document : Document}
    {element : Element} {site : Site} (h : scope.resolve ref document element = some site) :
    (∃ name, scope.lookup name = some site) ∨
      ∃ place ∈ scope.nearPlaces document element, ∃ decl ∈ place.2.types,
        site = scope.ownerOf place.1 place.2 decl := by
  have hname : ∃ name, scope.resolveName name document element = some site := by
    unfold resolve at h
    split at h
    · exact absurd h (Option.some_ne_none _).symm
    · split at h
      · exact absurd h (Option.some_ne_none _).symm
      · split at h
        · exact absurd h (Option.some_ne_none _).symm
        · exact ⟨_, h⟩
  obtain ⟨name, h⟩ := hname
  unfold resolveName at h
  dsimp only at h
  split at h
  · rename_i found hnear
    rw [Option.some.injEq] at h
    subst h
    split at hnear
    · exact absurd hnear (Option.some_ne_none _).symm
    · obtain ⟨place, hplace, hfound⟩ := List.exists_of_findSome?_eq_some hnear
      obtain ⟨decl, hdecl, heq⟩ := Option.map_eq_some_iff.mp hfound
      exact Or.inr ⟨place, hplace, decl, List.mem_of_find?_eq_some hdecl, heq.symm⟩
  · obtain ⟨candidate, -, hfound⟩ := List.exists_of_findSome?_eq_some h
    exact Or.inl ⟨candidate, hfound⟩

/-- What a reference inside an element of the documents means is declared. -/
theorem declared_of_resolve {ref : TypeRef} {document : Document} {element : Element}
    {site : Site} (hplace : DeclaredIn documents (document, element))
    (h : (ofDocuments documents).resolve ref document element = some site) :
    Declared documents site := by
  rcases found_of_resolve h with ⟨name, hlookup⟩ | ⟨place, hnear, decl, hdecl, rfl⟩
  · exact (declared_of_lookup hlookup).1
  · have hdeclared : DeclaredIn documents place := by
      rcases List.mem_append.mp hnear with hnear | hnear
      · exact (eq_or_declaredIn_of_mem_baseChain hnear).elim (fun heq => heq ▸ hplace) id
      · exact declaredIn_of_mem_anonymousElements hplace.1 hnear
    exact declared_ownerOf hdeclared.1 hdeclared.2 hdecl

/-- What a declaration refers to is declared. -/
theorem declared_of_mem_edges {site target : Site} (hsite : Declared documents site)
    (h : target ∈ (ofDocuments documents).edges site) : Declared documents target := by
  obtain ⟨ref, -, hresolve⟩ := List.mem_filterMap.mp h
  exact declared_of_resolve hsite.place hresolve

end TypeScope

end FrancaLint
