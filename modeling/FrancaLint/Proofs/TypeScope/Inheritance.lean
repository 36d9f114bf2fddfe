import FrancaLint.Proofs.TypeScope.BaseChain

/-! # Inherited types

An interface sees the types of the interface that it extends. The name of that interface is looked
up in the package of the document and then as it is, but not in the namespaces that the document
imports as a whole, where the name of a type would be looked up as well.

* `interfaceNamed?` and `visibleInterface?`: the interface that a name means by the rules for the
  names of types.
* `baseElement?_eq`: the interface that is extended, by the first two of these rules.
* `resolveLocal_eq_of_base?`: the types of what is extended come right after the own ones.
* `inherited_type_is_visible`: a type of the extended interface is found there.
* `imported_base_is_invisible`: an interface that only the last rule finds passes nothing on. -/

namespace FrancaLint

variable {documents : List Document} {document : Document}

/-- The first interface of the document that has a qualified name. -/
def Document.interfaceNamed? (document : Document) (name : String) : Option Interface :=
  document.interfaces.find? fun i =>
    !i.name.isEmpty && document.qualifiedName (.interface i) == name

/-- The first interface of the documents that has a qualified name, with its document. -/
def interfaceNamed? (documents : List Document) (name : String) : Option (Document × Interface) :=
  documents.findSome? fun document => (document.interfaceNamed? name).map (document, ·)

/-- The interface that a name in a document **means**: one of the same package, or one of that name,
or one in a namespace that the document imports as a whole. -/
def visibleInterface? (documents : List Document) (document : Document) (base : String) :
    Option (Document × Interface) :=
  (TypeScope.candidates base document).findSome? (interfaceNamed? documents)

/-- No type collection of the documents has the qualified name. -/
def NotCollection (documents : List Document) (name : String) : Prop :=
  ∀ document ∈ documents, ∀ c ∈ document.typeCollections, c.name ≠ "" →
    document.qualifiedName (.collection c) ≠ name

namespace TypeScope

/-! ## Looking up what is extended -/

/-- The elements of a document are looked up by their qualified names. -/
theorem lookup_namedElements (document : Document) (name : String) :
    document.namedElements.lookup name = (document.elements.find? fun element =>
      !element.name.isEmpty && document.qualifiedName element == name).map (document, ·) := by
  unfold Document.namedElements
  induction document.elements with
  | nil => rfl
  | cons element elements ih =>
    cases hempty : element.name.isEmpty with
    | true => simpa [hempty] using ih
    | false =>
      rw [List.filter_cons_of_pos (by simp [hempty]), List.map_cons, List.lookup_cons, ih,
        List.find?_cons, hempty, BEq.comm (a := name)]
      cases document.qualifiedName element == name <;> rfl

/-- Where no type collection has the name, an interface is looked up. -/
theorem lookup_namedElements_eq {name : String}
    (hcollection : ∀ c ∈ document.typeCollections, c.name ≠ "" →
      document.qualifiedName (.collection c) ≠ name) :
    document.namedElements.lookup name =
      (document.interfaceNamed? name).map fun i => (document, .interface i) := by
  have hnone : (document.typeCollections.map Element.collection).find? (fun element =>
      !element.name.isEmpty && document.qualifiedName element == name) = none := by
    rw [List.find?_eq_none]
    intro element hmem
    obtain ⟨c, hc, rfl⟩ := List.mem_map.mp hmem
    rw [Bool.and_eq_true, beq_iff_eq, not_and]
    intro hnamed
    exact hcollection c hc (by simpa [Element.name, Element.toCollection] using hnamed)
  rw [lookup_namedElements, Document.elements, List.find?_append, hnone, Option.none_or,
    List.find?_map, Option.map_map]
  rfl

/-- Where no type collection has the name, the first interface of that name is looked up. -/
theorem lookup_elements_eq {name : String} (hcollection : NotCollection documents name) :
    (ofDocuments documents).elements.lookup name =
      (interfaceNamed? documents name).map fun place => (place.1, .interface place.2) := by
  show (documents.flatMap Document.namedElements).lookup name = _
  induction documents with
  | nil => rfl
  | cons document documents ih =>
    have hhead := lookup_namedElements_eq (hcollection document List.mem_cons_self)
    have htail := ih fun other hother => hcollection other (List.mem_cons_of_mem _ hother)
    rw [List.flatMap_cons, List.lookup_append, hhead, htail, interfaceNamed?, interfaceNamed?,
      List.findSome?_cons]
    cases document.interfaceNamed? name <;> rfl

/-- **What is extended** is the interface of that name in the same package, or else the one that has
the name as it is. -/
theorem baseElement?_eq {base : String}
    (hpackage : NotCollection documents (qualify document.package base))
    (hplain : NotCollection documents base) :
    (ofDocuments documents).baseElement? document base =
      ((interfaceNamed? documents (qualify document.package base)).or
        (interfaceNamed? documents base)).map fun place => (place.1, .interface place.2) := by
  rw [baseElement?, lookup_elements_eq hpackage, lookup_elements_eq hplain]
  cases interfaceNamed? documents (qualify document.package base) <;> rfl

/-- A name that one of the first two rules finds means what these rules find. -/
theorem visibleInterface?_eq {base : String}
    (hfound : (interfaceNamed? documents (qualify document.package base)).isSome ∨
      (interfaceNamed? documents base).isSome) :
    visibleInterface? documents document base =
      (interfaceNamed? documents (qualify document.package base)).or
        (interfaceNamed? documents base) := by
  rw [visibleInterface?, candidates, List.findSome?_cons, List.findSome?_cons]
  cases hpackage : interfaceNamed? documents (qualify document.package base) with
  | some place => rfl
  | none =>
    rw [hpackage] at hfound
    obtain ⟨place, hplain⟩ := Option.isSome_iff_exists.mp (hfound.resolve_left Bool.false_ne_true)
    rw [hplain]
    rfl

/-! ## Finding a type in what is extended -/

/-- **The next element decides**: a type that an element lacks and that the element which it extends
declares is found there. -/
theorem resolveLocal_eq_of_base? {scope : TypeScope} {name : String} {document : Document}
    {element : Element} {place : Document × Element} {decl : TypeDecl}
    (hbase : scope.base? (document, element) = some place) (hown : element.findType? name = none)
    (hdecl : place.2.findType? name = some decl) :
    scope.resolveLocal name document element = some (scope.ownerOf place.1 place.2 decl) := by
  have hnew : ∀ other ∈ [(document, element)], ¬ isSamePlace place other := by
    intro other hother hsame
    rw [List.mem_singleton.mp hother] at hsame
    rw [eq_of_isSamePlace hsame, hown] at hdecl
    cases hdecl
  obtain ⟨length, hlength⟩ : ∃ length, scope.elements.length = length + 1 := by
    refine Nat.exists_eq_succ_of_ne_zero (Nat.ne_of_gt ?_)
    rw [← List.length_map Prod.snd]
    exact List.length_pos_of_mem (mem_elements_of_base? hbase)
  rw [resolveLocal, nearPlaces, hlength, baseChain_succ (by simp), hbase]
  dsimp only
  rw [baseChain_succ hnew, List.cons_append, List.cons_append, findIn_cons, hown, Option.map_none,
    Option.none_or, findIn_cons, hdecl, Option.map_some, Option.some_or]

/-- **An inherited type is visible.** Where the name of the interface that is extended means an
interface of the same package, or one by its full name, and no type collection shares these names, a
type that it declares and the extending interface does not is found in it: that very declaration,
where it stands. -/
theorem inherited_type_is_visible {documents : List Document} {document : Document} {i : Interface}
    {base name : String} {place : Document × Interface} {ref : TypeRef} {decl : TypeDecl}
    (hextends : i.base = some base) (hbase : base ≠ "")
    (hvisible : visibleInterface? documents document base = some place)
    (hfound : (interfaceNamed? documents (qualify document.package base)).isSome ∨
      (interfaceNamed? documents base).isSome)
    (hpackage : NotCollection documents (qualify document.package base))
    (hplain : NotCollection documents base)
    (href : ref.isPrimitive = false ∧ ref.derived = some name) (hname : name ≠ "")
    (hundotted : '.' ∉ name.toList)
    (hown : (Element.interface i).findType? name = none)
    (hdecl : (Element.interface place.2).findType? name = some decl) :
    let site := (ofDocuments documents).ownerOf place.1 (.interface place.2) decl
    (ofDocuments documents).resolve ref document (.interface i) = some site ∧ site.decl = decl ∧
      (decl.identity = none → site = Site.of place.1 (.interface place.2) decl) := by
  refine ⟨?_, decl_ownerOf, ownerOf_of_identity_eq_none⟩
  have hnext : (ofDocuments documents).base? (document, .interface i) =
      some (place.1, .interface place.2) := by
    rw [base?, Element.base?, hextends]
    dsimp only
    rw [if_neg (by simpa using hbase), baseElement?_eq hpackage hplain,
      ← visibleInterface?_eq hfound, hvisible]
    rfl
  have hlocal := resolveLocal_eq_of_base? hnext hown hdecl
  rw [resolve, href.1, href.2, if_neg Bool.false_ne_true]
  dsimp only
  rw [if_neg (by simpa using hname), resolveName, if_neg hundotted, hlocal]

/-- A type collection of the same name is taken for what is extended. -/
example :
    let base : Interface := { name := "Base", types := [{ name := "T", body := .struct [] none }] }
    let i : Interface := { name := "E", base := some "Base" }
    let document : Document :=
      { package := "b", sourcePath := "/b.fidl", typeCollections := [{ name := "Base" }],
        interfaces := [base, i] }
    visibleInterface? [document] document "Base" = some (document, base) ∧
    (ofDocuments [document]).resolve { derived := some "T" } document (.interface i) = none :=
  ⟨by decide +kernel, by decide +kernel⟩

/-! ## Extending an interface of another package -/

/-- A type without fields. -/
def plainType : TypeDecl :=
  { name := "T", body := .struct [] none }

/-- An interface that declares the type. -/
def plainInterface : Interface :=
  { name := "Base", types := [plainType] }

/-- The document of that interface. -/
def plainDocument : Document :=
  { package := "b", sourcePath := "/b.fidl", interfaces := [plainInterface] }

/-- An interface that extends the one of a given name. -/
def extension (base : String) : Interface :=
  { name := "E", base := some base }

/-- Its document, which imports the package of the other document as a whole. -/
def extendingDocument (base : String) : Document :=
  { package := "d", sourcePath := "/d.fidl",
    imports := [{ uri := "/b.fidl", ns := some "b.*" }], interfaces := [extension base] }

/-- The type is found if the interface that declares it is extended under its full name. -/
theorem resolve_extension :
    (ofDocuments [extendingDocument "b.Base", plainDocument]).resolve { derived := some "T" }
        (extendingDocument "b.Base") (.interface (extension "b.Base")) =
      some (Site.of plainDocument (.interface plainInterface) plainType) := by
  have hvisible : visibleInterface? [extendingDocument "b.Base", plainDocument]
      (extendingDocument "b.Base") "b.Base" = some (plainDocument, plainInterface) := by
    decide +kernel
  have hfound : (interfaceNamed? [extendingDocument "b.Base", plainDocument] "b.Base").isSome := by
    decide +kernel
  have hcollections : ∀ name,
      NotCollection [extendingDocument "b.Base", plainDocument] name := by
    simp [NotCollection, extendingDocument, plainDocument]
  have href : TypeRef.isPrimitive { derived := some "T" } = false := by decide +kernel
  have hundotted : '.' ∉ "T".toList := by decide
  have hown : (Element.interface (extension "b.Base")).findType? "T" = none := by decide +kernel
  have hdecl : (Element.interface plainInterface).findType? "T" = some plainType := by
    decide +kernel
  obtain ⟨hresolve, -, hsite⟩ := inherited_type_is_visible rfl (by decide) hvisible (.inr hfound)
    (hcollections _) (hcollections _) ⟨href, rfl⟩ (by decide) hundotted hown hdecl
  rw [hresolve, hsite rfl]

/-- **A base interface in an imported namespace is not found.** Its name means the interface that
declares the type, but the type cannot be seen from the interface that extends it. -/
theorem imported_base_is_invisible :
    visibleInterface? [extendingDocument "Base", plainDocument] (extendingDocument "Base") "Base" =
      some (plainDocument, plainInterface) ∧
    (Element.interface plainInterface).findType? "T" = some plainType ∧
    (ofDocuments [extendingDocument "Base", plainDocument]).resolve { derived := some "T" }
      (extendingDocument "Base") (.interface (extension "Base")) = none :=
  ⟨by decide +kernel, by decide +kernel, by decide +kernel⟩

end TypeScope

end FrancaLint
