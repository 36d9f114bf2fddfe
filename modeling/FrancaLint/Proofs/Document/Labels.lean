import FrancaLint.Proofs.Document.References

/-! # Declared names of a document

A document declares names on several levels: elements, the types and members in them, and the
fields, enumerators and arguments in these.

* `Label`, a declared name with the span where it stands.
* `Element.labels` and `Document.labels`, all of them; an anonymous element has no name.
* `Element.typeRefs`, the references in an element, and
  `Document.mem_typeRefs_of_mem_references`. -/

namespace FrancaLint

/-- A declared **name** where it stands. -/
structure Label where
  /-- The name. -/
  name : String
  /-- Where it stands. -/
  span : Span
  deriving DecidableEq, Repr

/-- The name of a field, an argument or an attribute. -/
def TypedName.label (typed : TypedName) : Label :=
  ⟨typed.name, typed.span⟩

/-- The name of an enumerator. -/
def Enumerator.label (enumerator : Enumerator) : Label :=
  ⟨enumerator.name, enumerator.span⟩

/-- The names in the body of a type: those of its enumerators or of its fields. -/
def TypeBody.labels : TypeBody → List Label
  | enumeration enumerators _ => enumerators.map Enumerator.label
  | struct fields _ | union fields _ => fields.map TypedName.label
  | map .. | synonym _ | array _ => []

/-- The name of a type and those in its body. -/
def TypeDecl.labels (decl : TypeDecl) : List Label :=
  ⟨decl.name, decl.span⟩ :: decl.body.labels

/-- The name of a method and those of its arguments. -/
def Method.labels (method : Method) : List Label :=
  ⟨method.name, method.span⟩ :: (method.inArgs ++ method.outArgs).map TypedName.label

/-- The types of the arguments of a method. -/
def Method.typeRefs (method : Method) : List TypeRef :=
  (method.inArgs ++ method.outArgs).map TypedName.type

/-- The name of a broadcast and those of its arguments. -/
def Broadcast.labels (broadcast : Broadcast) : List Label :=
  ⟨broadcast.name, broadcast.span⟩ :: broadcast.outArgs.map TypedName.label

/-- The types of the arguments of a broadcast. -/
def Broadcast.typeRefs (broadcast : Broadcast) : List TypeRef :=
  broadcast.outArgs.map TypedName.type

namespace Element

/-- The names of the methods, attributes and broadcasts of an element, and of their arguments. -/
def memberLabels : Element → List Label
  | collection _ => []
  | interface i =>
      i.methods.flatMap Method.labels ++ i.attributes.map TypedName.label ++
        i.broadcasts.flatMap Broadcast.labels

/-- The references in the methods, attributes and broadcasts of an element. -/
def memberTypeRefs : Element → List TypeRef
  | collection _ => []
  | interface i =>
      i.methods.flatMap Method.typeRefs ++ i.attributes.map TypedName.type ++
        i.broadcasts.flatMap Broadcast.typeRefs

/-- The name of an element, if it has one. -/
def ownLabels (element : Element) : List Label :=
  if element.name.isEmpty then [] else [⟨element.name, element.span⟩]

/-- The names that an element declares, its own one first. -/
def labels (element : Element) : List Label :=
  element.ownLabels ++ (element.types.flatMap TypeDecl.labels ++ element.memberLabels)

/-- The references in an element. -/
def typeRefs (element : Element) : List TypeRef :=
  element.types.flatMap TypeDecl.references ++ element.memberTypeRefs

end Element

/-- An element has no more than one name. -/
theorem Element.ownLabels_subset (element : Element) :
    element.ownLabels ⊆ [⟨element.name, element.span⟩] := by
  unfold ownLabels
  split
  · exact List.nil_subset _
  · exact List.Subset.refl _

/-- All **declared names** of a document. -/
def Document.labels (document : Document) : List Label :=
  document.elements.flatMap Element.labels

/-- The references of a document are those in its elements. -/
theorem Document.mem_typeRefs_of_mem_references {document : Document} {reference : Reference}
    (h : reference ∈ document.references) :
    ∃ element ∈ document.elements, reference.ref ∈ element.typeRefs := by
  have hinterface : ∀ i ∈ document.interfaces, ∀ ref ∈ (Element.interface i).memberTypeRefs,
      ∃ element ∈ document.elements, ref ∈ element.typeRefs := fun i hi ref href =>
    ⟨.interface i, List.mem_append_right _ (List.mem_map_of_mem hi), List.mem_append_right _ href⟩
  have hholding : ∀ {element : Element} {placed : List (RefPlace × TypeRef)},
      reference ∈ element.holding placed → reference.ref ∈ placed.map Prod.snd := by
    intro element placed hmem
    obtain ⟨pair, hpair, rfl⟩ := List.mem_map.mp hmem
    exact List.mem_map_of_mem hpair
  rcases List.mem_append.mp h with h | h
  · rcases List.mem_append.mp h with h | h
    · obtain ⟨element, helement, h⟩ := List.mem_flatMap.mp h
      obtain ⟨decl, hdecl, h⟩ := List.mem_flatMap.mp h
      have href := hholding h
      rw [TypeDecl.map_snd_placedReferences] at href
      exact ⟨element, helement, List.mem_append_left _ (List.mem_flatMap.mpr ⟨decl, hdecl, href⟩)⟩
    · obtain ⟨i, hi, h⟩ := List.mem_flatMap.mp h
      obtain ⟨method, hmethod, h⟩ := List.mem_flatMap.mp h
      refine hinterface i hi _ (List.mem_append_left _ (List.mem_append_left _ ?_))
      refine List.mem_flatMap.mpr ⟨method, hmethod, ?_⟩
      simpa [Method.placedReferences, Method.typeRefs] using hholding h
  · obtain ⟨i, hi, h⟩ := List.mem_flatMap.mp h
    rcases List.mem_append.mp h with h | h
    · refine hinterface i hi _ (List.mem_append_left _ (List.mem_append_right _ ?_))
      simpa using hholding h
    · obtain ⟨broadcast, hbroadcast, h⟩ := List.mem_flatMap.mp h
      refine hinterface i hi _ (List.mem_append_right _ ?_)
      refine List.mem_flatMap.mpr ⟨broadcast, hbroadcast, ?_⟩
      simpa [Broadcast.placedReferences, Broadcast.typeRefs] using hholding h

end FrancaLint
