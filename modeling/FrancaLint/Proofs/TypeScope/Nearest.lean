import FrancaLint.Proofs.Rule.Collision
import FrancaLint.Proofs.TypeScope.Inheritance
import Mathlib.Data.List.Chain

/-! # The nearest declaration

Whatever a reference means is a declaration of one of the documents, and its name is the last
segment of the reference. A name without dots means the declaration that is nearest: in the element
itself, then in what it extends, then in what that extends, and so on; nothing forbids that such a
chain comes back to an element where it has been, and there it ends. Only then come the anonymous
type collections of the document.

* `lastSegment`, the last segment of a dotted name.
* `Extends`, what the name behind an extending interface means in its own document.
* `IsExtensionChain`, the elements that extend one another up to the first that repeats;
  `exists_isExtensionChain`: every element has such a chain.
* `IsNearest`, the declaration in the first of some places; `findIn_eq_some_iff`: it is found where
  it stands.
* `reference_means_nearest`: what a reference means. -/

namespace FrancaLint

open Source

/-! ## The last segment of a name -/

/-- The **last segment** of a dotted name. -/
def lastSegment (name : String) : String :=
  (segments name).getLast (segments_ne_nil name)

/-- What stands in front of a dot makes no difference to the last segment. -/
theorem lastSegment_append (outer inner : String) :
    lastSegment (outer ++ "." ++ inner) = lastSegment inner := by
  unfold lastSegment
  simp only [segments_append]
  exact List.getLast_append_of_ne_nil _ (segments_ne_nil inner)

/-- A name without dots is its last segment. -/
theorem lastSegment_of_not_mem {name : String} (h : '.' ∉ name.toList) :
    lastSegment name = name := by
  unfold lastSegment
  simp only [segments_of_not_mem h]
  rfl

/-- A qualified name has the last segment of the name. -/
theorem lastSegment_qualify (package name : String) :
    lastSegment (qualify package name) = lastSegment name := by
  unfold qualify
  split
  · rfl
  · exact lastSegment_append package name

/-- The name that a type has everywhere ends with its own name. -/
theorem lastSegment_typeName (document : Document) (element : Element) {decl : TypeDecl}
    (h : '.' ∉ decl.name.toList) :
    lastSegment (document.typeName element decl) = decl.name := by
  unfold Document.typeName
  split <;> rw [lastSegment_qualify, lastSegment_of_not_mem h]

namespace TypeScope

/-- The names that a name may stand for have the same last segment. -/
theorem lastSegment_of_mem_candidates {name candidate : String} {document : Document}
    (h : candidate ∈ candidates name document) : lastSegment candidate = lastSegment name := by
  rcases List.mem_cons.mp h with rfl | h
  · exact lastSegment_qualify _ _
  · rcases List.mem_cons.mp h with rfl | h
    · rfl
    · obtain ⟨ns, -, rfl⟩ := List.mem_map.mp h
      exact lastSegment_qualify _ _

end TypeScope

/-! ## Elements that extend one another -/

variable {documents : List Document}

/-- The first named element of the documents that has a qualified name, with its document. -/
def elementNamed? (documents : List Document) (name : String) : Option (Document × Element) :=
  documents.findSome? fun document => (document.elements.find? fun element =>
    !element.name.isEmpty && document.qualifiedName element == name).map (document, ·)

/-- An interface **extends** the element that its base names in the package of its document, or else
the one that has this name as it is. -/
def Extends (documents : List Document) (place next : Document × Element) : Prop :=
  ∃ i base, place.2 = .interface i ∧ i.base = some base ∧ base ≠ "" ∧
    (elementNamed? documents (qualify place.1.package base)).or (elementNamed? documents base) =
      some next

namespace TypeScope

/-- The elements of a scope are looked up by their qualified names. -/
theorem lookup_elements (documents : List Document) (name : String) :
    (ofDocuments documents).elements.lookup name = elementNamed? documents name := by
  show (documents.flatMap Document.namedElements).lookup name = _
  induction documents with
  | nil => rfl
  | cons document documents ih =>
    rw [List.flatMap_cons, List.lookup_append, lookup_namedElements, ih, elementNamed?,
      elementNamed?, List.findSome?_cons]
    cases document.elements.find? _ <;> rfl

/-- One step along the chain of an element leads to what it extends. -/
theorem base?_eq_some_iff {place next : Document × Element} :
    (ofDocuments documents).base? place = some next ↔ Extends documents place next := by
  obtain ⟨document, element⟩ := place
  have hlookup : ∀ base, (ofDocuments documents).baseElement? document base =
      (elementNamed? documents (qualify document.package base)).or
        (elementNamed? documents base) := by
    intro base
    rw [baseElement?, lookup_elements, lookup_elements]
    cases elementNamed? documents (qualify document.package base) <;> rfl
  cases element with
  | collection c => simp [base?, Element.base?, Extends]
  | interface i =>
    cases hbase : i.base with
    | none => simp [base?, Element.base?, Extends, hbase]
    | some base => simp [base?, Element.base?, Extends, hbase, hlookup]

end TypeScope

/-- An element extends one element at most. -/
theorem Extends.unique {place next other : Document × Element} (h : Extends documents place next)
    (hother : Extends documents place other) : next = other := by
  rw [← TypeScope.base?_eq_some_iff] at h hother
  exact Option.some.inj (h.symm.trans hother)

/-- Places that extend one another from some place on, no element twice. -/
structure IsClimb (documents : List Document) (start : Document × Element)
    (chain : List (Document × Element)) : Prop where
  /-- The place itself comes first. -/
  head?_eq : chain.head? = some start
  /-- Each place extends the next one. -/
  isChain : chain.IsChain (Extends documents)
  /-- No element repeats. -/
  pairwise : chain.Pairwise fun earlier later => ¬ TypeScope.isSamePlace later earlier

/-- The **extension chain** of a place: the place, what it extends, what that extends and so on,
until nothing is extended or an element repeats. -/
structure IsExtensionChain (documents : List Document) (start : Document × Element)
    (chain : List (Document × Element)) : Prop extends IsClimb documents start chain where
  /-- What the last place extends, if anything, is there already. -/
  ends : ∀ last next, chain.getLast? = some last → Extends documents last next →
    ∃ other ∈ chain, TypeScope.isSamePlace next other

namespace IsClimb

variable {start : Document × Element} {chain : List (Document × Element)}

/-- A climb starts with its place. -/
theorem exists_cons (h : IsClimb documents start chain) : ∃ rest, chain = start :: rest :=
  List.head?_eq_some_iff.mp h.head?_eq

/-- Every place of a climb but the first is extended by another one. -/
theorem exists_extends_of_mem {rest : List (Document × Element)}
    (h : (start :: rest).IsChain (Extends documents)) {place : Document × Element}
    (hmem : place ∈ rest) : ∃ before, Extends documents before place := by
  induction rest generalizing start with
  | nil => exact absurd hmem List.not_mem_nil
  | cons next rest ih =>
    obtain ⟨hnext, hrest⟩ := List.isChain_cons_cons.mp h
    rcases List.mem_cons.mp hmem with rfl | hmem
    · exact ⟨start, hnext⟩
    · exact ih hrest hmem

/-- No climb is longer than there are named elements besides the place itself. -/
theorem length_le (h : IsClimb documents start chain) :
    chain.length ≤ (TypeScope.ofDocuments documents).elements.length + 1 := by
  obtain ⟨rest, rfl⟩ := h.exists_cons
  have hnamed : rest ⊆ (TypeScope.ofDocuments documents).elements.map Prod.snd := by
    intro place hplace
    obtain ⟨before, hbefore⟩ := exists_extends_of_mem h.isChain hplace
    exact TypeScope.mem_elements_of_base? (TypeScope.base?_eq_some_iff.mpr hbefore)
  have hnodup : (start :: rest).Nodup := by
    refine h.pairwise.imp ?_
    rintro place _ hdistinct rfl
    exact hdistinct (TypeScope.isSamePlace_self place)
  have hle := (List.subperm_of_subset hnodup.of_cons hnamed).length_le
  rw [List.length_map] at hle
  exact Nat.succ_le_succ hle

/-- A climb goes on as long as the last place extends one that is not there yet. -/
theorem append (h : IsClimb documents start chain) {last next : Document × Element}
    (hlast : chain.getLast? = some last) (hnext : Extends documents last next)
    (hnew : ∀ other ∈ chain, ¬ TypeScope.isSamePlace next other) :
    IsClimb documents start (chain ++ [next]) where
  head?_eq := by
    obtain ⟨rest, rfl⟩ := h.exists_cons
    rfl
  isChain := by
    refine h.isChain.append (List.isChain_singleton _) fun place hplace other hother => ?_
    rw [hlast, Option.mem_some_iff] at hplace
    rw [List.head?_cons, Option.mem_some_iff] at hother
    rwa [← hplace, ← hother]
  pairwise := by
    refine List.pairwise_append.mpr ⟨h.pairwise, List.pairwise_singleton _ _, ?_⟩
    intro other hother place hplace
    rw [List.mem_singleton.mp hplace]
    exact hnew other hother

/-- A climb can be completed to an extension chain. -/
theorem exists_isExtensionChain (h : IsClimb documents start chain) :
    ∃ whole, IsExtensionChain documents start whole := by
  -- on the number of places that may still come
  induction hroom : (TypeScope.ofDocuments documents).elements.length + 1 - chain.length
    using Nat.strong_induction_on generalizing chain with
  | _ room ih =>
    by_cases hends : ∀ last next, chain.getLast? = some last → Extends documents last next →
        ∃ other ∈ chain, TypeScope.isSamePlace next other
    · exact ⟨chain, h, hends⟩
    · push Not at hends
      obtain ⟨last, next, hlast, hnext, hnew⟩ := hends
      have hlonger := h.append hlast hnext hnew
      have hle := hlonger.length_le
      rw [List.length_append, List.length_singleton] at hle
      refine ih _ ?_ hlonger rfl
      rw [List.length_append, List.length_singleton]
      omega

end IsClimb

/-- Every place has an extension chain. -/
theorem exists_isExtensionChain (documents : List Document) (start : Document × Element) :
    ∃ chain, IsExtensionChain documents start chain := by
  have hstart : IsClimb documents start [start] :=
    ⟨rfl, List.isChain_singleton _, List.pairwise_singleton _ _⟩
  exact hstart.exists_isExtensionChain

namespace TypeScope

/-- The walk along what an element extends is its extension chain. -/
theorem nearPlaces_eq {document : Document} {element : Element}
    {chain : List (Document × Element)}
    (h : IsExtensionChain documents (document, element) chain) :
    (ofDocuments documents).nearPlaces document element =
      chain ++ anonymousElements document := by
  obtain ⟨rest, rfl⟩ := h.exists_cons
  have hchain : ((document, element) :: rest).IsChain fun earlier later =>
      (ofDocuments documents).base? earlier = some later :=
    h.isChain.imp fun _ _ hextends => base?_eq_some_iff.mpr hextends
  have hends : ∀ last next, ((document, element) :: rest).getLast? = some last →
      (ofDocuments documents).base? last = some next → ∃ other,
        (other ∈ [] ∨ other ∈ (document, element) :: rest) ∧ isSamePlace next other = true := by
    intro last next hlast hbase
    obtain ⟨other, hother, hsame⟩ := h.ends last next hlast (base?_eq_some_iff.mp hbase)
    exact ⟨other, Or.inr hother, hsame⟩
  rw [nearPlaces, baseChain_eq hchain (by simp) h.pairwise hends h.length_le]

end TypeScope

/-! ## The nearest declaration -/

/-- A declaration is the **nearest** one of a name in some places: the first type of that name in
the first place that declares one. -/
def IsNearest (name : String) (places : List (Document × Element)) (place : Document × Element)
    (decl : TypeDecl) : Prop :=
  ∃ nearer farther, places = nearer ++ place :: farther ∧
    (∀ other ∈ nearer, other.2.findType? name = none) ∧ place.2.findType? name = some decl

namespace TypeScope

/-- Looking for a name in some places finds the nearest declaration, where it stands. -/
theorem findIn_eq_some_iff {scope : TypeScope} {name : String}
    {places : List (Document × Element)} {site : Site} :
    scope.findIn name places = some site ↔
      ∃ place decl, IsNearest name places place decl ∧
        site = scope.ownerOf place.1 place.2 decl := by
  unfold findIn
  rw [List.findSome?_eq_some_iff]
  constructor
  · rintro ⟨nearer, place, farther, rfl, hfound, hnearer⟩
    obtain ⟨decl, hdecl, rfl⟩ := Option.map_eq_some_iff.mp hfound
    exact ⟨place, decl, ⟨nearer, farther, rfl,
      fun other hother => Option.map_eq_none_iff.mp (hnearer other hother), hdecl⟩, rfl⟩
  · rintro ⟨place, decl, ⟨nearer, farther, rfl, hnearer, hdecl⟩, rfl⟩
    exact ⟨nearer, place, farther, rfl, Option.map_eq_some_iff.mpr ⟨decl, hdecl, rfl⟩,
      fun other hother => Option.map_eq_none_iff.mpr (hnearer other hother)⟩

/-- A name is not found in places that declare no type of that name. -/
theorem findIn_eq_none_iff {scope : TypeScope} {name : String}
    {places : List (Document × Element)} :
    scope.findIn name places = none ↔ ∀ place ∈ places, place.2.findType? name = none := by
  unfold findIn
  simp only [List.findSome?_eq_none_iff, Option.map_eq_none_iff]

/-! ## Meanings -/

variable {document : Document} {element : Element} {ref : TypeRef} {name : String} {site : Site}

/-- A reference by a name means what the name means; the empty name means nothing. -/
theorem resolve_of_derived {scope : TypeScope} (hprimitive : ref.isPrimitive = false)
    (hderived : ref.derived = some name) : scope.resolve ref document element =
      if name = "" then none else scope.resolveName name document element := by
  rw [resolve, hprimitive, hderived, if_neg Bool.false_ne_true]
  simp only [String.isEmpty_iff]

/-- What a name means is found near the element or by one of the names it may stand for. -/
theorem near_or_candidate_of_resolveName {scope : TypeScope}
    (h : scope.resolveName name document element = some site) :
    ('.' ∉ name.toList ∧ scope.resolveLocal name document element = some site) ∨
      ∃ candidate ∈ candidates name document, scope.lookup candidate = some site := by
  unfold resolveName at h
  dsimp only at h
  split at h
  · rename_i found hnear
    rw [Option.some.injEq] at h
    subst h
    split at hnear
    · cases hnear
    · rename_i hundotted
      exact Or.inl ⟨hundotted, hnear⟩
  · exact Or.inr (List.exists_of_findSome?_eq_some h)

/-- An undotted name that is found near the element means what is found there. -/
theorem resolveName_of_near {scope : TypeScope} (hundotted : '.' ∉ name.toList)
    (hnear : scope.resolveLocal name document element = some site) :
    scope.resolveName name document element = some site := by
  unfold resolveName
  simp only [hundotted, hnear, if_false]

/-- If the names of types have no dots, then what a name means is a declaration by its last
segment. -/
theorem name_eq_lastSegment
    (hundotted : ∀ document ∈ documents, ∀ element ∈ document.elements, ∀ decl ∈ element.types,
      '.' ∉ decl.name.toList)
    (h : (ofDocuments documents).resolveName name document element = some site) :
    site.decl.name = lastSegment name := by
  rcases near_or_candidate_of_resolveName h with ⟨hname, hnear⟩ | ⟨candidate, hmem, hlookup⟩
  · -- near the element types are found by their own names
    obtain ⟨place, decl, ⟨-, -, -, -, hdecl⟩, rfl⟩ := findIn_eq_some_iff.mp hnear
    rw [lastSegment_of_not_mem hname, decl_ownerOf]
    simpa using List.find?_some hdecl
  · obtain ⟨hdeclared, hname⟩ := declared_of_lookup hlookup
    obtain ⟨other, hother, owner, howner, decl, hdecl, rfl⟩ := declared_iff.mp hdeclared
    calc decl.name
        = lastSegment (other.typeName owner decl) :=
          (lastSegment_typeName other owner (hundotted other hother owner howner decl hdecl)).symm
      _ = lastSegment candidate := congrArg lastSegment hname
      _ = lastSegment name := lastSegment_of_mem_candidates hmem

/-- **A reference means the nearest declaration.** Let no type of some documents have a dot in its
name. Whatever a reference by a name in an element of one of the documents means is a declaration of
one of the documents, with the name that it has there, and its own name is the last segment of the
reference. The element has a chain of what it extends, also if the extensions run in a circle. If
the name has no dots, it means the first type of that name in the nearest element of the chain that
declares one, and else the one in the first such anonymous type collection of the document. That
declaration stands at its own place, unless it is one object that is known by its name to stand at
another place as well. -/
theorem reference_means_nearest (documents : List Document)
    (hundotted : ∀ document ∈ documents, ∀ element ∈ document.elements, ∀ decl ∈ element.types,
      '.' ∉ decl.name.toList)
    (document : Document) (hdocument : document ∈ documents)
    (element : Element) (helement : element ∈ document.elements)
    (ref : TypeRef) (name : String) (hprimitive : ref.isPrimitive = false)
    (hderived : ref.derived = some name) :
    let scope := ofDocuments documents
    let meaning := scope.resolve ref document element
    let means := fun (place : Document × Element) (decl : TypeDecl) => ∃ site,
      meaning = some site ∧ site = scope.ownerOf place.1 place.2 decl ∧
      scope.StandsAt place decl site
    (∀ site, meaning = some site →
      site.document ∈ documents ∧ site.element ∈ site.document.elements ∧
      site.decl ∈ site.element.types ∧
      site.name = site.document.typeName site.element site.decl ∧
      site.decl.name = lastSegment name) ∧
    (name = "" → meaning = none) ∧
    (∃ chain, IsExtensionChain documents (document, element) chain) ∧
    ∀ chain, IsExtensionChain documents (document, element) chain →
      name ≠ "" → '.' ∉ name.toList →
        (∀ place decl, IsNearest name chain place decl → means place decl) ∧
        ((∀ place ∈ chain, place.2.findType? name = none) →
          ∀ place decl, IsNearest name (anonymousElements document) place decl →
            means place decl) := by
  intro scope meaning means
  have hmeaning : meaning =
      if name = "" then none else scope.resolveName name document element :=
    resolve_of_derived hprimitive hderived
  refine ⟨fun site hsite => ?_, fun hempty => by rw [hmeaning, if_pos hempty],
    exists_isExtensionChain documents _, fun chain hchain hname hplain => ?_⟩
  · obtain ⟨other, hother, owner, howner, decl, hdecl, rfl⟩ :=
      declared_iff.mp (declared_of_resolve ⟨hdocument, helement⟩ hsite)
    have hfound : scope.resolveName name document element =
        some (Site.of other owner decl) := by
      rw [hmeaning] at hsite
      split at hsite
      · cases hsite
      · exact hsite
    exact ⟨hother, howner, hdecl, rfl, name_eq_lastSegment hundotted hfound⟩
  · have hlocal : scope.resolveLocal name document element =
        (scope.findIn name chain).or (scope.findIn name (anonymousElements document)) := by
      rw [resolveLocal, nearPlaces_eq hchain, findIn_append]
    have hmeans : ∀ place decl, scope.resolveLocal name document element =
        some (scope.ownerOf place.1 place.2 decl) → means place decl := by
      intro place decl hfound
      refine ⟨_, ?_, rfl, standsAt_ownerOf scope place decl⟩
      rw [hmeaning, if_neg hname]
      exact resolveName_of_near hplain hfound
    refine ⟨fun place decl hnearest => hmeans place decl ?_,
      fun hnone place decl hnearest => hmeans place decl ?_⟩
    · rw [hlocal, findIn_eq_some_iff.mpr ⟨place, decl, hnearest, rfl⟩, Option.some_or]
    · rw [hlocal, findIn_eq_none_iff.mpr hnone, Option.none_or,
        findIn_eq_some_iff.mpr ⟨place, decl, hnearest, rfl⟩]

/-! ## Two interfaces that extend each other -/

/-- An interface that extends one of another package. -/
def nearInterface : Interface :=
  { name := "E", base := some "q.F" }

/-- The interface of that package, which extends the first one in turn. -/
def farInterface : Interface :=
  { name := "F", types := [{ name := "T", body := .array {} }], base := some "p.E" }

/-- An anonymous type collection. -/
def nearCollection : TypeCollection :=
  { name := "", types := [{ name := "T", body := .struct [] none },
    { name := "U", body := .struct [] none }] }

/-- The document of the first interface, which has the type collection as well. -/
def nearDocument : Document :=
  { package := "p", sourcePath := "/p.fidl", typeCollections := [nearCollection],
    interfaces := [nearInterface] }

/-- The document of the other one. -/
def farDocument : Document :=
  { package := "q", sourcePath := "/q.fidl", interfaces := [farInterface] }

/-- The interfaces, each in its document. -/
def circle : List (Document × Element) :=
  [(nearDocument, .interface nearInterface), (farDocument, .interface farInterface)]

/-- They are the extension chain of the first one. -/
theorem isExtensionChain_circle : IsExtensionChain [nearDocument, farDocument]
    (nearDocument, .interface nearInterface) circle where
  head?_eq := rfl
  isChain := List.isChain_pair.mpr (base?_eq_some_iff.mp (by decide +kernel))
  pairwise := by decide
  ends := by
    intro last next hlast hnext
    obtain rfl : (farDocument, .interface farInterface) = last := Option.some.inj hlast
    have hback : Extends [nearDocument, farDocument] (farDocument, .interface farInterface)
        (nearDocument, .interface nearInterface) := base?_eq_some_iff.mp (by decide +kernel)
    rw [hnext.unique hback]
    exact ⟨_, List.mem_cons_self, isSamePlace_self _⟩

/-- In a circle of extensions a type is found in the next interface, and only what none of them
declares is found in the anonymous type collection. -/
theorem nearest_circle :
    let documents := [nearDocument, farDocument]
    let meaning (name : String) := (ofDocuments documents).resolve { derived := some name }
      nearDocument (.interface nearInterface)
    (∀ document ∈ documents, ∀ element ∈ document.elements, ∀ decl ∈ element.types,
      '.' ∉ decl.name.toList) ∧
    IsExtensionChain documents (nearDocument, .interface nearInterface) circle ∧
    (meaning "T").map (·.document) = some farDocument ∧
    (meaning "U").map (·.document) = some nearDocument := by
  intro documents meaning
  have hundotted : ∀ document ∈ documents, ∀ element ∈ document.elements, ∀ decl ∈ element.types,
      '.' ∉ decl.name.toList := by
    decide +kernel
  have hmeaning (name : String) := reference_means_nearest documents hundotted nearDocument
    List.mem_cons_self (.interface nearInterface) (by decide) { derived := some name } name rfl rfl
  obtain ⟨-, -, -, htype⟩ := hmeaning "T"
  obtain ⟨hnear, -⟩ := htype circle isExtensionChain_circle (by decide) (by decide)
  obtain ⟨-, -, -, hother⟩ := hmeaning "U"
  obtain ⟨-, hanonymous⟩ := hother circle isExtensionChain_circle (by decide) (by decide)
  have hfar : IsNearest "T" circle (farDocument, .interface farInterface)
      { name := "T", body := .array {} } :=
    ⟨[(nearDocument, .interface nearInterface)], [], rfl, by decide +kernel, by decide +kernel⟩
  have hlast : IsNearest "U" (anonymousElements nearDocument)
      (nearDocument, .collection nearCollection) { name := "U", body := .struct [] none } :=
    ⟨[], [], by decide +kernel, by simp, by decide +kernel⟩
  obtain ⟨_, hmeans, rfl, -⟩ := hnear _ _ hfar
  obtain ⟨_, hmeans', rfl, -⟩ := hanonymous (by decide +kernel) _ _ hlast
  rw [ownerOf_of_identity_eq_none rfl] at hmeans hmeans'
  refine ⟨hundotted, isExtensionChain_circle, ?_, ?_⟩
  · exact congrArg (Option.map _) hmeans
  · exact congrArg (Option.map _) hmeans'

end TypeScope

end FrancaLint
