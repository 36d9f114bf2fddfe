import FrancaLint.Model

/-! # References of a document

A document refers to types in many places: in its type declarations, in the arguments of its methods
and broadcasts, and in its attributes.

* `RefPlace`, the places, and `Reference`, a type reference at its place in an element.
* `Document.references`, all of them: `typeReferences`, `methodReferences` and `signalReferences`.
* `TypeDecl.map_snd_placedReferences`: a declaration has no other references than those of its
  places. -/

namespace FrancaLint

/-- A **place** inside an element where a type reference stands. -/
inductive RefPlace where
  /-- What a declaration extends. -/
  | base (decl : TypeDecl)
  /-- The type of a field. -/
  | field (decl : TypeDecl) (field : TypedName)
  /-- The keys of a map. -/
  | key (decl : TypeDecl)
  /-- The values of a map. -/
  | value (decl : TypeDecl)
  /-- The type that an alias stands for. -/
  | target (decl : TypeDecl)
  /-- The items of an array. -/
  | item (decl : TypeDecl)
  /-- An argument that callers of a method pass. -/
  | inArgument (method : Method) (argument : TypedName)
  /-- An argument that comes back from a method. -/
  | outArgument (method : Method) (argument : TypedName)
  /-- The type of an attribute. -/
  | attributeType (attr : TypedName)
  /-- An argument of a broadcast. -/
  | broadcastArgument (broadcast : Broadcast) (argument : TypedName)
  deriving DecidableEq, Repr

/-- A **reference** to a type where it stands. -/
structure Reference where
  /-- The element that holds it. -/
  element : Element
  /-- Its place in the element. -/
  place : RefPlace
  /-- The reference itself. -/
  ref : TypeRef
  deriving DecidableEq, Repr

/-- The dotted path of the declaration that a reference of the element belongs to. -/
def RefPlace.pathIn (element : Element) : RefPlace → String
  | base decl | field decl _ | key decl | value decl | target decl | item decl =>
      element.pathTo decl.name
  | inArgument method argument | outArgument method argument =>
      element.name ++ "." ++ method.name ++ "." ++ argument.name
  | attributeType attr => element.name ++ "." ++ attr.name
  | broadcastArgument broadcast argument =>
      element.name ++ "." ++ broadcast.name ++ "." ++ argument.name

/-- The dotted path of the declaration around a reference, inside its document. -/
def Reference.path (reference : Reference) : String :=
  reference.place.pathIn reference.element

/-! ## Places of references -/

/-- The references of a type declaration at their places. -/
def TypeDecl.placedReferences (decl : TypeDecl) : List (RefPlace × TypeRef) :=
  match decl.body with
  | .enumeration _ base => base.toList.map fun ref => (.base decl, ref)
  | .map key value => [(.key decl, key), (.value decl, value)]
  | .synonym target => [(.target decl, target)]
  | .struct fields base =>
      (base.toList.map fun ref => (.base decl, ref)) ++
        fields.map fun field => (.field decl field, field.type)
  | .union fields base =>
      (base.toList.map fun ref => (.base decl, ref)) ++
        fields.map fun field => (.field decl field, field.type)
  | .array element => [(.item decl, element)]

/-- The references of a method at their places. -/
def Method.placedReferences (method : Method) : List (RefPlace × TypeRef) :=
  (method.inArgs.map fun argument => (.inArgument method argument, argument.type)) ++
    method.outArgs.map fun argument => (.outArgument method argument, argument.type)

/-- The references of a broadcast at their places. -/
def Broadcast.placedReferences (broadcast : Broadcast) : List (RefPlace × TypeRef) :=
  broadcast.outArgs.map fun argument => (.broadcastArgument broadcast argument, argument.type)

/-- References at their places in an element. -/
def Element.holding (element : Element) (placed : List (RefPlace × TypeRef)) : List Reference :=
  placed.map fun (place, ref) => ⟨element, place, ref⟩

namespace Document

variable (document : Document)

/-- The references in the type declarations of a document. -/
def typeReferences : List Reference :=
  document.elements.flatMap fun element =>
    element.types.flatMap fun decl => element.holding decl.placedReferences

/-- The references in the methods of a document. -/
def methodReferences : List Reference :=
  document.interfaces.flatMap fun i =>
    i.methods.flatMap fun method => (Element.interface i).holding method.placedReferences

/-- The references in the attributes and broadcasts of a document. -/
def signalReferences : List Reference :=
  document.interfaces.flatMap fun i =>
    (Element.interface i).holding (i.attributes.map fun attr => (.attributeType attr, attr.type)) ++
      i.broadcasts.flatMap fun broadcast =>
        (Element.interface i).holding broadcast.placedReferences

/-- All **references** of a document. -/
def references : List Reference :=
  document.typeReferences ++ document.methodReferences ++ document.signalReferences

end Document

/-- A declaration has no other references than those of its places, in the same order. -/
theorem TypeDecl.map_snd_placedReferences (decl : TypeDecl) :
    decl.placedReferences.map Prod.snd = decl.references := by
  unfold TypeDecl.placedReferences TypeDecl.references
  cases decl.body <;> simp [TypeBody.references, Function.comp_def]

end FrancaLint
