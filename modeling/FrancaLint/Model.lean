import FrancaLint.Span

/-! # The document model

What a Franca IDL file declares: imports, type collections and interfaces, with the type
declarations, attributes, methods and broadcasts inside them. A value of `Document` is all that the
rules of the checker look at. -/

namespace FrancaLint

/-- The basic types of the language. -/
def primitiveTypes : List String :=
  ["Int8", "UInt8", "Int16", "UInt16", "Int32", "UInt32", "Int64", "UInt64",
   "Boolean", "Float", "Double", "String", "ByteBuffer"]

/-- The name of an element inside a package; an empty package adds nothing. -/
def qualify (package name : String) : String :=
  if package.isEmpty then name else package ++ "." ++ name

/-- A **type reference**: a basic type (`predefined`) or a declared type by name (`derived`). -/
structure TypeRef where
  /-- The basic type, when the reference is primitive. -/
  predefined : Option String := none
  /-- The name of a declared type, possibly dotted. -/
  derived : Option String := none
  /-- Where the reference stands. -/
  span : Span := {}
  deriving DecidableEq, Repr, Inhabited

namespace TypeRef

/-- A reference to a basic type. -/
def isPrimitive (ref : TypeRef) : Bool :=
  ref.predefined.isSome

/-- The reference as messages show it. -/
def display (ref : TypeRef) : String :=
  match ref.predefined, ref.derived with
  | some name, _ => name
  | none, some name => if name.isEmpty then "?" else name
  | none, none => "?"

end TypeRef

/-- A name with a type: a field, an argument or an attribute. -/
structure TypedName where
  /-- The declared name. -/
  name : String
  /-- Its type, or the type of its items. -/
  type : TypeRef
  /-- The name stands for an implicit array. -/
  isArray : Bool := false
  /-- Where the name stands. -/
  span : Span := {}
  deriving DecidableEq, Repr, Inhabited

/-- An enumerator and the literal given to it, if any, as it is written. -/
structure Enumerator where
  /-- The declared name. -/
  name : String
  /-- The literal text. -/
  value : Option String := none
  /-- Where the name stands. -/
  span : Span := {}
  deriving DecidableEq, Repr, Inhabited

/-- The right-hand side of a type declaration. -/
inductive TypeBody where
  /-- An enumeration, possibly extending another one. -/
  | enumeration (enumerators : List Enumerator) (base : Option TypeRef)
  /-- A map from keys to values. -/
  | map (key value : TypeRef)
  /-- Another name for a type. -/
  | synonym (target : TypeRef)
  /-- A record with all of its fields. -/
  | struct (fields : List TypedName) (base : Option TypeRef)
  /-- A record with one of its fields at a time. -/
  | union (fields : List TypedName) (base : Option TypeRef)
  /-- A sequence of items of one type. -/
  | array (element : TypeRef)
  deriving DecidableEq, Repr, Inhabited

namespace TypeBody

/-- The keyword that declares such a type. -/
def kind : TypeBody → String
  | enumeration .. => "enumeration"
  | map .. => "map"
  | synonym .. => "typedef"
  | struct .. => "struct"
  | union .. => "union"
  | array .. => "array"

/-- Every reference the declaration contains, in the order in which it is declared. -/
def references : TypeBody → List TypeRef
  | enumeration _ base => base.toList
  | map key value => [key, value]
  | synonym target => [target]
  | struct fields base => base.toList ++ fields.map (·.type)
  | union fields base => base.toList ++ fields.map (·.type)
  | array element => [element]

end TypeBody

/-- A **type declaration**. It is an object of its own unless it bears an identity. -/
structure TypeDecl where
  /-- The declared name. -/
  name : String
  /-- What the name stands for. -/
  body : TypeBody
  /-- Where the name stands. -/
  span : Span := {}
  /-- The number of an object that stands at several places. A declaration without one stands at one
  place only, as all do that are read from a text. -/
  identity : Option Nat := none
  deriving DecidableEq, Repr, Inhabited

namespace TypeDecl

/-- The keyword that declares such a type. -/
def kind (decl : TypeDecl) : String :=
  decl.body.kind

/-- Every reference the declaration contains, in the order in which it is declared. -/
def references (decl : TypeDecl) : List TypeRef :=
  decl.body.references

/-- The declarations at two places are one object. -/
def isSame (decl other : TypeDecl) : Bool :=
  decl.identity.isSome && decl == other

end TypeDecl

/-- A method of an interface. -/
structure Method where
  /-- The declared name. -/
  name : String
  /-- Arguments that callers pass. -/
  inArgs : List TypedName := []
  /-- Arguments that come back. -/
  outArgs : List TypedName := []
  /-- Callers do not wait for an answer. -/
  fireAndForget : Bool := false
  /-- Where the name stands. -/
  span : Span := {}
  deriving DecidableEq, Repr, Inhabited

/-- A broadcast of an interface. -/
structure Broadcast where
  /-- The declared name. -/
  name : String
  /-- Arguments that subscribers receive. -/
  outArgs : List TypedName := []
  /-- Where the name stands. -/
  span : Span := {}
  deriving DecidableEq, Repr, Inhabited

/-- A **type collection**: a group of type declarations. An anonymous one has the empty name. -/
structure TypeCollection where
  /-- The declared name. -/
  name : String
  /-- The declared types. -/
  types : List TypeDecl := []
  /-- Major and minor version. -/
  version : Option (Int × Int) := none
  /-- Where the name stands, or the whole collection if it has none. -/
  span : Span := {}
  /-- The number of an object that stands at several places. -/
  identity : Option Nat := none
  deriving DecidableEq, Repr, Inhabited

/-- An **interface**: a group of type declarations with attributes, methods and broadcasts. -/
structure Interface extends TypeCollection where
  /-- The declared methods. -/
  methods : List Method := []
  /-- The declared attributes. -/
  attributes : List TypedName := []
  /-- The declared broadcasts. -/
  broadcasts : List Broadcast := []
  /-- The name of the interface this one extends. -/
  base : Option String := none
  /-- The names of the interfaces this one manages. -/
  managed : List String := []
  deriving DecidableEq, Repr, Inhabited

/-- An **element** of a document: a type collection or an interface. -/
inductive Element where
  /-- A type collection. -/
  | collection (c : TypeCollection)
  /-- An interface. -/
  | interface (i : Interface)
  deriving DecidableEq, Repr, Inhabited

/-- The two kinds of elements. -/
inductive ElementKind where
  /-- An interface. -/
  | interface
  /-- A type collection. -/
  | typeCollection
  deriving DecidableEq, Repr, Inhabited

/-- The keyword of an element kind. -/
def ElementKind.keyword : ElementKind → String
  | interface => "interface"
  | typeCollection => "typeCollection"

namespace Element

/-- The part that type collections and interfaces share. -/
def toCollection : Element → TypeCollection
  | collection c => c
  | interface i => i.toTypeCollection

/-- The declared name. -/
def name (element : Element) : String :=
  element.toCollection.name

/-- The declared types. -/
def types (element : Element) : List TypeDecl :=
  element.toCollection.types

/-- Where the element stands. -/
def span (element : Element) : Span :=
  element.toCollection.span

/-- Collection or interface. -/
def kind : Element → ElementKind
  | collection _ => .typeCollection
  | interface _ => .interface

/-- The name of the interface this element extends; only interfaces extend anything. -/
def base? : Element → Option String
  | collection _ => none
  | interface i => i.base

/-- The elements at two places are one object. -/
def isSame (element other : Element) : Bool :=
  element.toCollection.identity.isSome && element == other

/-- The first type of that name the element itself declares. -/
def findType? (element : Element) (name : String) : Option TypeDecl :=
  element.types.find? (·.name == name)

/-- The dotted path of a name inside the element; an anonymous element adds nothing. -/
def pathTo (element : Element) (name : String) : String :=
  if element.name.isEmpty then name else element.name ++ "." ++ name

end Element

/-- An import: the URI as it is written and, for a namespace import, what is imported from it. -/
structure Import where
  /-- The URI text between the quotes. -/
  uri : String
  /-- The imported namespace, with a final `.*` if all of it is imported. -/
  ns : Option String := none
  /-- Where the import stands. -/
  span : Span := {}
  deriving DecidableEq, Repr, Inhabited

/-- A **document**: one file of declarations. -/
structure Document where
  /-- The package that the file declares. -/
  package : String
  /-- The identifier the document was made for. -/
  sourcePath : String
  /-- Its imports. -/
  imports : List Import := []
  /-- Its type collections. -/
  typeCollections : List TypeCollection := []
  /-- Its interfaces. -/
  interfaces : List Interface := []
  /-- A digest of the text it was read from. -/
  digest : Option String := none
  /-- Where the package is declared. -/
  span : Span := {}
  /-- A number that tells apart the documents without a digest that are there at one time. That of a
  document that is gone may come back. -/
  serial : Nat := 0
  deriving DecidableEq, Repr, Inhabited

namespace Document

/-- Type collections first, then interfaces, each in the order of declaration. -/
def elements (document : Document) : List Element :=
  document.typeCollections.map .collection ++ document.interfaces.map .interface

/-- Every type of the document with the element that declares it. -/
def declarations (document : Document) : List (Element × TypeDecl) :=
  document.elements.flatMap fun element => element.types.map fun decl => (element, decl)

/-- The name that an element of the document has everywhere. -/
def qualifiedName (document : Document) (element : Element) : String :=
  qualify document.package element.name

/-- The name that a type of the document has everywhere. -/
def typeName (document : Document) (element : Element) (decl : TypeDecl) : String :=
  if element.name.isEmpty then qualify document.package decl.name
  else qualify (document.qualifiedName element) decl.name

end Document

end FrancaLint
