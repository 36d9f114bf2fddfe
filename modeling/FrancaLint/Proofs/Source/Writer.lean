import FrancaLint.Proofs.Source.Scanning
import FrancaLint.Proofs.Source.Writing
import FrancaLint.Source.Document

/-! # Writing documents

The words of a document in the syntax of the language: the package, the imports, the type
collections and the interfaces, each in the order in which the document lists them.

* `Document.words` and `Document.source`, the text with blanks between the words.
* `Document.IsWritable`, the documents that have such a text.
* `Document.unplaced`, a document without its spans and the identities of its parts, which no text
  keeps. -/

namespace FrancaLint

open Source

/-! ## Names, versions and references -/

namespace Source

/-- The segments of a dotted name. -/
def segments (name : String) : List String :=
  (name.toList.splitOn '.').map String.ofList

/-- Identifiers joined by dots. -/
def IsDottedName (name : String) : Prop :=
  ∀ segment ∈ segments name, IsIdentifier segment

instance (name : String) : Decidable (IsDottedName name) :=
  inferInstanceAs (Decidable (∀ segment ∈ segments name, IsIdentifier segment))

/-- The words of a dotted name. -/
def dottedWords (name : String) : List Word :=
  match segments name with
  | [] => []
  | head :: tail => nameWord head :: tail.flatMap fun segment => [markWord ".", nameWord segment]

/-- The words that name what a declaration extends. -/
def extendsWords (name : String) : List Word :=
  markWord "extends" :: dottedWords name

/-- The names of what an interface manages, if there are any. -/
def managesWords : List String → List Word
  | [] => []
  | first :: others =>
      markWord "manages" ::
        (dottedWords first ++ others.flatMap fun name => markWord "," :: dottedWords name)

/-- The digits of a number behind its sign. -/
def numeral (n : Int) : List Char :=
  if n < 0 then '-' :: Nat.toDigits 10 n.natAbs else Nat.toDigits 10 n.natAbs

/-- The number has no more digits than can be read. -/
def IsShort (n : Int) : Prop :=
  (Nat.toDigits 10 n.natAbs).length ≤ maxDigits

instance (n : Int) : Decidable (IsShort n) :=
  inferInstanceAs (Decidable (_ ≤ _))

/-- The words of a version. -/
def versionWords (version : Int × Int) : List Word :=
  markWord "version" :: bracedWords
    [markWord "major", (.number, numeral version.1), markWord "minor",
      (.number, numeral version.2)]

/-- The text is on one line. -/
def IsOneLine (text : String) : Prop :=
  '\n' ∉ text.toList

instance (text : String) : Decidable (IsOneLine text) :=
  inferInstanceAs (Decidable (_ ∉ _))

end Source

namespace TypeRef

/-- The reference without its place. -/
def unplaced (ref : TypeRef) : TypeRef :=
  { ref with span := {} }

/-- The name that the reference is written with. -/
def target (ref : TypeRef) : String :=
  (ref.predefined.or ref.derived).getD ""

/-- The words of the reference. -/
def words (ref : TypeRef) : List Word :=
  dottedWords ref.target

/-- A basic type, or a declared type by a dotted name that is no basic type. -/
def IsWritable : TypeRef → Prop
  | ⟨some name, none, _⟩ => name ∈ primitiveTypes
  | ⟨none, some name, _⟩ => IsDottedName name ∧ name ∉ primitiveTypes
  | _ => False

/-- A declared type by a dotted name, whatever the name. -/
def IsDeclared : TypeRef → Prop
  | ⟨none, some name, _⟩ => IsDottedName name
  | _ => False

instance : DecidablePred IsWritable
  | ⟨some name, none, _⟩ => inferInstanceAs (Decidable (name ∈ primitiveTypes))
  | ⟨none, some name, _⟩ => inferInstanceAs (Decidable (IsDottedName name ∧ name ∉ primitiveTypes))
  | ⟨none, none, _⟩ => isFalse id
  | ⟨some _, some _, _⟩ => isFalse id

instance : DecidablePred IsDeclared
  | ⟨none, some name, _⟩ => inferInstanceAs (Decidable (IsDottedName name))
  | ⟨none, none, _⟩ => isFalse id
  | ⟨some _, _, _⟩ => isFalse id

end TypeRef

namespace TypedName

/-- The name and its type without their places. -/
def unplaced (typed : TypedName) : TypedName :=
  { typed with type := typed.type.unplaced, span := {} }

/-- The words of a type and the name that has it. -/
def words (typed : TypedName) : List Word :=
  typed.type.words ++ ((if typed.isArray then [markWord "[]"] else []) ++ [nameWord typed.name])

/-- An identifier with a type that can be written. -/
def IsWritable (typed : TypedName) : Prop :=
  IsIdentifier typed.name ∧ typed.type.IsWritable

instance (typed : TypedName) : Decidable typed.IsWritable :=
  inferInstanceAs (Decidable (_ ∧ _))

end TypedName

/-! ## Type declarations -/

namespace Enumerator

/-- The enumerator without its place. -/
def unplaced (enumerator : Enumerator) : Enumerator :=
  { enumerator with span := {} }

/-- The words of the enumerator; its value is quoted. -/
def words (enumerator : Enumerator) : List Word :=
  nameWord enumerator.name ::
    enumerator.value.elim [] fun value => [markWord "=", quotedWord value]

/-- An identifier with a value on one line, if any. -/
def IsWritable (enumerator : Enumerator) : Prop :=
  IsIdentifier enumerator.name ∧ ∀ value ∈ enumerator.value, IsOneLine value

instance (enumerator : Enumerator) : Decidable enumerator.IsWritable :=
  inferInstanceAs (Decidable (_ ∧ _))

end Enumerator

namespace TypeBody

/-- The right-hand side of a declaration without places. -/
def unplaced : TypeBody → TypeBody
  | enumeration enumerators base =>
      .enumeration (enumerators.map Enumerator.unplaced) (base.map TypeRef.unplaced)
  | map key value => .map key.unplaced value.unplaced
  | synonym target => .synonym target.unplaced
  | struct fields base => .struct (fields.map TypedName.unplaced) (base.map TypeRef.unplaced)
  | union fields base => .union (fields.map TypedName.unplaced) (base.map TypeRef.unplaced)
  | array element => .array element.unplaced

/-- The words behind the name of a declaration. -/
def words : TypeBody → List Word
  | enumeration enumerators base =>
      base.elim [] (extendsWords ·.target) ++ bracedWords (enumerators.flatMap Enumerator.words)
  | map key value => bracedWords (key.words ++ markWord "to" :: value.words)
  | synonym target => markWord "is" :: target.words
  | struct fields base =>
      base.elim [] (extendsWords ·.target) ++ bracedWords (fields.flatMap TypedName.words)
  | union fields base =>
      base.elim [] (extendsWords ·.target) ++ bracedWords (fields.flatMap TypedName.words)
  | array element => markWord "of" :: element.words

/-- All parts can be written, and what is extended is a declared type. -/
def IsWritable : TypeBody → Prop
  | enumeration enumerators base =>
      (∀ enumerator ∈ enumerators, enumerator.IsWritable) ∧ ∀ ref ∈ base, ref.IsDeclared
  | map key value => key.IsWritable ∧ value.IsWritable
  | synonym target => target.IsWritable
  | struct fields base => (∀ field ∈ fields, field.IsWritable) ∧ ∀ ref ∈ base, ref.IsDeclared
  | union fields base => (∀ field ∈ fields, field.IsWritable) ∧ ∀ ref ∈ base, ref.IsDeclared
  | array element => element.IsWritable

instance : DecidablePred IsWritable
  | enumeration _ _ => inferInstanceAs (Decidable (_ ∧ _))
  | map _ _ => inferInstanceAs (Decidable (_ ∧ _))
  | synonym target => inferInstanceAs (Decidable target.IsWritable)
  | struct _ _ => inferInstanceAs (Decidable (_ ∧ _))
  | union _ _ => inferInstanceAs (Decidable (_ ∧ _))
  | array element => inferInstanceAs (Decidable element.IsWritable)

end TypeBody

namespace TypeDecl

/-- The declaration without places, as an object of its own. -/
def unplaced (decl : TypeDecl) : TypeDecl :=
  { decl with body := decl.body.unplaced, span := {}, identity := none }

/-- The words of the declaration. -/
def words (decl : TypeDecl) : List Word :=
  markWord decl.kind :: nameWord decl.name :: decl.body.words

/-- An identifier with a right-hand side that can be written. -/
def IsWritable (decl : TypeDecl) : Prop :=
  IsIdentifier decl.name ∧ decl.body.IsWritable

instance (decl : TypeDecl) : Decidable decl.IsWritable :=
  inferInstanceAs (Decidable (_ ∧ _))

end TypeDecl

/-! ## Members of interfaces -/

namespace Source

/-- The words of a list of arguments. -/
def argumentsWords (keyword : String) (arguments : List TypedName) : List Word :=
  markWord keyword :: bracedWords (arguments.flatMap TypedName.words)

end Source

namespace Method

/-- The method without places. -/
def unplaced (method : Method) : Method :=
  { method with
    inArgs := method.inArgs.map TypedName.unplaced,
    outArgs := method.outArgs.map TypedName.unplaced, span := {} }

/-- The words of the method. -/
def words (method : Method) : List Word :=
  markWord "method" :: nameWord method.name ::
    ((if method.fireAndForget then [markWord "fireAndForget"] else []) ++
      bracedWords (argumentsWords "in" method.inArgs ++ argumentsWords "out" method.outArgs))

/-- An identifier with arguments that can be written. -/
def IsWritable (method : Method) : Prop :=
  IsIdentifier method.name ∧ (∀ argument ∈ method.inArgs, argument.IsWritable) ∧
    ∀ argument ∈ method.outArgs, argument.IsWritable

instance (method : Method) : Decidable method.IsWritable :=
  inferInstanceAs (Decidable (_ ∧ _))

end Method

namespace Broadcast

/-- The broadcast without places. -/
def unplaced (broadcast : Broadcast) : Broadcast :=
  { broadcast with outArgs := broadcast.outArgs.map TypedName.unplaced, span := {} }

/-- The words of the broadcast. -/
def words (broadcast : Broadcast) : List Word :=
  markWord "broadcast" :: nameWord broadcast.name ::
    bracedWords (argumentsWords "out" broadcast.outArgs)

/-- An identifier with arguments that can be written. -/
def IsWritable (broadcast : Broadcast) : Prop :=
  IsIdentifier broadcast.name ∧ ∀ argument ∈ broadcast.outArgs, argument.IsWritable

instance (broadcast : Broadcast) : Decidable broadcast.IsWritable :=
  inferInstanceAs (Decidable (_ ∧ _))

end Broadcast

namespace Source.Member

/-- The member without places. -/
def unplaced : Member → Member
  | .attribute a => .attribute a.unplaced
  | method m => .method m.unplaced
  | broadcast b => .broadcast b.unplaced
  | type t => .type t.unplaced

/-- The words of the member. -/
def words : Member → List Word
  | .attribute a => markWord "attribute" :: a.words
  | method m => m.words
  | broadcast b => b.words
  | type t => t.words

/-- The member can be written. -/
def IsWritable : Member → Prop
  | .attribute a => a.IsWritable
  | method m => m.IsWritable
  | broadcast b => b.IsWritable
  | type t => t.IsWritable

end Source.Member

/-! ## Elements -/

namespace TypeCollection

/-- The type collection without places, as an object of its own. -/
def unplaced (collection : TypeCollection) : TypeCollection :=
  { collection with
    types := collection.types.map TypeDecl.unplaced, span := {}, identity := none }

/-- The words of the type collection; an anonymous one has no name. -/
def words (collection : TypeCollection) : List Word :=
  markWord "typeCollection" ::
    ((if collection.name.isEmpty then [] else [nameWord collection.name]) ++
      bracedWords (collection.version.elim [] versionWords ++
        collection.types.flatMap TypeDecl.words))

/-- The types and the version can be written. -/
def HasWritableTypes (collection : TypeCollection) : Prop :=
  (∀ decl ∈ collection.types, decl.IsWritable) ∧
    ∀ version ∈ collection.version, IsShort version.1 ∧ IsShort version.2

instance (collection : TypeCollection) : Decidable collection.HasWritableTypes :=
  inferInstanceAs (Decidable (_ ∧ _))

/-- An identifier or no name at all, with types and a version that can be written. -/
def IsWritable (collection : TypeCollection) : Prop :=
  (collection.name = "" ∨ IsIdentifier collection.name) ∧ collection.HasWritableTypes

instance (collection : TypeCollection) : Decidable collection.IsWritable :=
  inferInstanceAs (Decidable (_ ∧ _))

end TypeCollection

namespace Interface

/-- The interface without places. -/
def unplaced (interface : Interface) : Interface :=
  { interface with
    toTypeCollection := interface.toTypeCollection.unplaced,
    methods := interface.methods.map Method.unplaced,
    attributes := interface.attributes.map TypedName.unplaced,
    broadcasts := interface.broadcasts.map Broadcast.unplaced }

/-- The members of the interface, one kind after the other. -/
def members (interface : Interface) : List Member :=
  interface.types.map .type ++ interface.attributes.map .attribute ++
    interface.methods.map .method ++ interface.broadcasts.map .broadcast

/-- The words of the interface. -/
def words (interface : Interface) : List Word :=
  markWord "interface" :: nameWord interface.name ::
    (interface.base.elim [] extendsWords ++ (managesWords interface.managed ++
      bracedWords (interface.version.elim [] versionWords ++
        interface.members.flatMap Member.words)))

/-- An interface that can be written. -/
@[mk_iff]
structure IsWritable (interface : Interface) : Prop where
  /-- The name is an identifier. -/
  name : IsIdentifier interface.name
  /-- The types and the version can be written. -/
  types : interface.HasWritableTypes
  /-- The methods can be written. -/
  methods : ∀ method ∈ interface.methods, method.IsWritable
  /-- The attributes can be written. -/
  attributes : ∀ typed ∈ interface.attributes, typed.IsWritable
  /-- The broadcasts can be written. -/
  broadcasts : ∀ broadcast ∈ interface.broadcasts, broadcast.IsWritable
  /-- The interface that is extended has a dotted name. -/
  base : ∀ name ∈ interface.base, IsDottedName name
  /-- The interfaces that are managed have dotted names. -/
  managed : ∀ name ∈ interface.managed, IsDottedName name

instance (interface : Interface) : Decidable interface.IsWritable :=
  decidable_of_iff _ (isWritable_iff interface).symm

end Interface

namespace Element

/-- The element without places. -/
def unplaced : Element → Element
  | collection c => .collection c.unplaced
  | interface i => .interface i.unplaced

/-- The words of the element. -/
def words : Element → List Word
  | collection c => c.words
  | interface i => i.words

end Element

/-! ## Documents -/

namespace Import

/-- The import without its place. -/
def unplaced (imported : Import) : Import :=
  { imported with span := {} }

/-- A namespace ends with `.*`. -/
def isWhole (ns : String) : Bool :=
  ['.', '*'].isSuffixOf ns.toList

/-- A namespace without a final `.*`. -/
def namespaceName (ns : String) : String :=
  if isWhole ns then String.ofList (ns.toList.take (ns.toList.length - 2)) else ns

/-- The words of the import. -/
def words (imported : Import) : List Word :=
  markWord "import" ::
    match imported.ns with
    | none => [markWord "model", quotedWord imported.uri]
    | some ns =>
        (dottedWords (namespaceName ns) ++ if isWhole ns then [markWord ".*"] else []) ++
          [markWord "from", quotedWord imported.uri]

/-- A URI on one line and, if there is a namespace, a dotted name with or without a final `.*`. -/
def IsWritable (imported : Import) : Prop :=
  IsOneLine imported.uri ∧ ∀ ns ∈ imported.ns, IsDottedName (namespaceName ns)

instance (imported : Import) : Decidable imported.IsWritable :=
  inferInstanceAs (Decidable (_ ∧ _))

end Import

namespace Document

/-- The document without places. -/
def unplaced (document : Document) : Document :=
  { document with
    imports := document.imports.map Import.unplaced,
    typeCollections := document.typeCollections.map TypeCollection.unplaced,
    interfaces := document.interfaces.map Interface.unplaced,
    span := {} }

/-- The words of the document. -/
def words (document : Document) : List Word :=
  markWord "package" :: (dottedWords document.package ++
    (document.imports.flatMap Import.words ++ document.elements.flatMap Element.words))

/-- The text of the document. -/
def source (document : Document) : String :=
  String.ofList (written document.words)

/-- A document that can be **written**. -/
@[mk_iff]
structure IsWritable (document : Document) : Prop where
  /-- The package is a dotted name. -/
  package : IsDottedName document.package
  /-- The imports can be written. -/
  imports : ∀ imported ∈ document.imports, imported.IsWritable
  /-- The type collections can be written. -/
  typeCollections : ∀ collection ∈ document.typeCollections, collection.IsWritable
  /-- The interfaces can be written. -/
  interfaces : ∀ interface ∈ document.interfaces, interface.IsWritable
  /-- At most one type collection is anonymous. -/
  anonymous : (document.typeCollections.filter (·.name.isEmpty)).length ≤ 1

instance (document : Document) : Decidable document.IsWritable :=
  decidable_of_iff _ (isWritable_iff document).symm

end Document

end FrancaLint
