import FrancaLint.Graph.Components
import FrancaLint.Graph.DepthFirst
import FrancaLint.Model

/-! # Type names

Which declaration a type name means inside an element of a document. The first hit counts:

1. a name without dots is a type of the element, then of the interfaces it extends, then of an
   anonymous type collection of the document;
2. any name is looked up inside the package of the document;
3. then as it is;
4. then inside every namespace that the document imports as a whole.

Main definitions: `TypeScope`, the types of some documents; `TypeScope.ownerOf`, where a declaration
stands; `TypeScope.resolve`; the graph of type references with `TypeScope.edges`,
`TypeScope.findCycle?` and `TypeScope.cycles`. -/

namespace FrancaLint

/-- A type declaration with the place where it is declared. -/
structure Site where
  /-- The name that the type has everywhere. -/
  name : String
  /-- The declaration. -/
  decl : TypeDecl
  /-- The document that holds it. -/
  document : Document
  /-- The element that declares it. -/
  element : Element
  deriving DecidableEq, Repr, Inhabited

namespace Site

/-- The site of a type that an element of a document declares. -/
def of (document : Document) (element : Element) (decl : TypeDecl) : Site where
  name := document.typeName element decl
  decl := decl
  document := document
  element := element

/-- The dotted path of the declaration inside its document. -/
def path (site : Site) : String :=
  site.element.pathTo site.decl.name

end Site

/-- The sites of all types that a document declares, each at its own place. -/
def Document.sites (document : Document) : List Site :=
  document.declarations.map fun (element, decl) => Site.of document element decl

/-- The named elements of a document by their qualified names. -/
def Document.namedElements (document : Document) : List (String × (Document × Element)) :=
  (document.elements.filter fun element => !element.name.isEmpty).map fun element =>
    (document.qualifiedName element, (document, element))

/-- The namespace that an import brings in as a whole. -/
def Import.wholeNamespace? (i : Import) : Option String :=
  match i.ns with
  | none => none
  | some ns =>
      match ns.toList.reverse with
      | '*' :: '.' :: rest => some (String.ofList rest.reverse)
      | _ => none

/-- The types and elements of some documents by name. Of several with one name the first counts. -/
structure TypeScope where
  /-- The types. -/
  types : List (String × Site)
  /-- The named elements with their documents. -/
  elements : List (String × (Document × Element))
  deriving DecidableEq, Repr, Inhabited

namespace TypeScope

/-- The scope of some documents. -/
def ofDocuments (documents : List Document) : TypeScope where
  types := documents.flatMap fun document => document.sites.map fun site => (site.name, site)
  elements := documents.flatMap Document.namedElements

variable (scope : TypeScope)

/-- The type that has a name everywhere. -/
def lookup (name : String) : Option Site :=
  scope.types.lookup name

/-- The site of a declaration at hand. Where its name is known to be that of the very same object,
this is the place where the object was met first, which may be another one. -/
def ownerOf (document : Document) (element : Element) (decl : TypeDecl) : Site :=
  match scope.lookup (document.typeName element decl) with
  | none => Site.of document element decl
  | some found => if found.decl.isSame decl then found else Site.of document element decl

/-- The sites of all types of a document. -/
def typesOf (document : Document) : List Site :=
  document.declarations.map fun (element, decl) => scope.ownerOf document element decl

/-! ## Resolution -/

/-- The element that extends a name refers to: one of the same package, or else one of that name. -/
def baseElement? (document : Document) (base : String) : Option (Document × Element) :=
  match scope.elements.lookup (qualify document.package base) with
  | some found => some found
  | none => scope.elements.lookup base

/-- The place of the element that an element extends. -/
def base? (place : Document × Element) : Option (Document × Element) :=
  match place.2.base? with
  | none => none
  | some base => if base.isEmpty then none else scope.baseElement? place.1 base

/-- Two places hold one element: it is one object at both, or they are the same. -/
def isSamePlace (place other : Document × Element) : Bool :=
  place.2.isSame other.2 || place.2 == other.2 && place.1 == other.1

/-- An element and the elements that it extends, nearest first, up to the first one that has been
`seen`. The number bounds how many there are. -/
def baseChain : Nat → List (Document × Element) → Document × Element → List (Document × Element)
  | 0, _, _ => []
  | length + 1, seen, place =>
      if seen.any (isSamePlace place) then []
      else
        place ::
          match scope.base? place with
          | none => []
          | some next => baseChain length (place :: seen) next

/-- The type of that name in the nearest of some elements. -/
def findIn (name : String) (elements : List (Document × Element)) : Option Site :=
  elements.findSome? fun (document, element) =>
    (element.findType? name).map (scope.ownerOf document element)

/-- The anonymous type collections of a document. -/
def anonymousElements (document : Document) : List (Document × Element) :=
  (document.typeCollections.filter (·.name.isEmpty)).map fun c => (document, .collection c)

/-- The places where an undotted name inside an element is looked for first: the element and what it
extends, then the anonymous type collections of the document. The extended ones are named elements,
each of which comes once. -/
def nearPlaces (document : Document) (element : Element) : List (Document × Element) :=
  scope.baseChain (scope.elements.length + 1) [] (document, element) ++ anonymousElements document

/-- The type of an undotted name in an element, in what it extends, or in an anonymous type
collection. -/
def resolveLocal (name : String) (document : Document) (element : Element) : Option Site :=
  scope.findIn name (scope.nearPlaces document element)

/-- The names that a name in a document may stand for, in the order in which they are tried. -/
def candidates (name : String) (document : Document) : List String :=
  qualify document.package name :: name ::
    (document.imports.filterMap Import.wholeNamespace?).map (qualify · name)

/-- The declaration of a name inside an element of a document. -/
def resolveName (name : String) (document : Document) (element : Element) : Option Site :=
  let near := if '.' ∈ name.toList then none else scope.resolveLocal name document element
  match near with
  | some site => some site
  | none => (candidates name document).findSome? scope.lookup

/-- The declaration that a reference inside an element of a document means; none for basic types and
for unknown names. -/
def resolve (ref : TypeRef) (document : Document) (element : Element) : Option Site :=
  if ref.isPrimitive then none
  else
    match ref.derived with
    | none => none
    | some name => if name.isEmpty then none else scope.resolveName name document element

/-- Where names are looked up that start from a place: there, at the types and the elements of the
scope, and in the anonymous type collections of their documents. -/
def placesFrom (place : Document × Element) : List (Document × Element) :=
  (place :: (scope.types.map fun (_, site) => (site.document, site.element)) ++
    scope.elements.map Prod.snd).flatMap fun place => place :: anonymousElements place.1

/-- A bound on the number of declarations that references lead to from a place. -/
def reachFrom (place : Document × Element) : Nat :=
  scope.types.length + ((scope.placesFrom place).flatMap fun place => place.2.types).length

/-! ## The graph of type references -/

/-- The declarations that a declaration refers to, in the order of its references. -/
def edges (site : Site) : List Site :=
  site.decl.references.filterMap fun ref => scope.resolve ref site.document site.element

/-- A bound on the length of any path without repetitions: such a path has the names of the scope
and possibly that of its first node. -/
def depth : Nat :=
  scope.types.length + 2

/-- A bound on the length of any path without repetitions from a declaration, which need not be in
scope: such a path has the names of the scope, those of the types declared around its first node,
and possibly that of the node itself. -/
def depthFrom (site : Site) : Nat :=
  scope.depth + site.element.types.length + site.document.declarations.length

/-- The first cycle that a depth-first search from a declaration meets, as the names along it; the
last name repeats the first one. -/
def findCycle? (site : Site) : Option (List String) :=
  Graph.findCycle? Site.name scope.edges (scope.depthFrom site) site

/-- A cycle can be reached from a declaration. -/
def hasCycle (site : Site) : Bool :=
  (scope.findCycle? site).isSome

/-- The cyclic components that can be reached from some declarations, as the names of their members
in the order of discovery. -/
def cycles (sites : List Site) : List (List String) :=
  Graph.cycles Site.name scope.edges (scope.depth + sites.length) sites

end TypeScope

end FrancaLint
