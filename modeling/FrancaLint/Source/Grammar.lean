import FrancaLint.Model
import FrancaLint.Source.Phrase
import FrancaLint.Source.Quoted

/-! # The grammar of the language

The phrases of Franca IDL that the checker understands: packages, imports, type collections,
interfaces and their members. The value of a phrase is the part of the document that it declares;
versions stay texts until the whole file has been read.

Main definitions: `Draft`, a file whose versions are still texts, and `draft`, its phrase. -/

namespace FrancaLint.Source

open Phrase

/-! ## Drafts -/

/-- A dotted name: its first segment and those behind it. -/
structure DottedName where
  /-- The first segment. -/
  head : Token
  /-- The other segments. -/
  tail : List Token

namespace DottedName

/-- The segments joined by dots. -/
def text (dotted : DottedName) : String :=
  ".".intercalate ((dotted.head :: dotted.tail).map Token.text)

/-- The span from the first segment to the last one. -/
def span (dotted : DottedName) (file : String) : Span :=
  dotted.head.spanTo (dotted.tail.getLast?.getD dotted.head) file

/-- A reference to the basic type of that name, or else to a declared type. -/
def typeRef (dotted : DottedName) (file : String) : TypeRef :=
  if dotted.text ∈ primitiveTypes then
    { predefined := some dotted.text, span := dotted.span file }
  else { derived := some dotted.text, span := dotted.span file }

/-- A reference to a declared type, whatever its name. -/
def declaredRef (dotted : DottedName) (file : String) : TypeRef :=
  { derived := some dotted.text, span := dotted.span file }

end DottedName

/-- A version as it is written. -/
structure VersionText where
  /-- The major number. -/
  major : Token
  /-- The minor number. -/
  minor : Token
  /-- Where the version stands. -/
  span : Span

/-- An element whose version is still a text. -/
inductive Definition where
  /-- A type collection. -/
  | collection (c : TypeCollection) (version : Option VersionText)
  /-- An interface. -/
  | interface (i : Interface) (version : Option VersionText)

/-- A member of an interface. -/
inductive Member where
  /-- An attribute. -/
  | attribute (a : TypedName)
  /-- A method. -/
  | method (m : Method)
  /-- A broadcast. -/
  | broadcast (b : Broadcast)
  /-- A type declaration. -/
  | type (t : TypeDecl)

namespace Member

/-- The attribute this member is. -/
def attribute? : Member → Option TypedName
  | .attribute a => some a
  | _ => none

/-- The method this member is. -/
def method? : Member → Option Method
  | method m => some m
  | _ => none

/-- The broadcast this member is. -/
def broadcast? : Member → Option Broadcast
  | broadcast b => some b
  | _ => none

/-- The type declaration this member is. -/
def type? : Member → Option TypeDecl
  | type t => some t
  | _ => none

end Member

/-- A file whose versions are still texts. -/
structure Draft where
  /-- The declared package. -/
  package : String
  /-- Where the package is declared. -/
  span : Span
  /-- The imports. -/
  imports : List Import
  /-- The elements, in the order of the file. -/
  definitions : List Definition

/-! ## Names and types -/

/-- A name, or names joined by dots. -/
def dottedName : Phrase DottedName :=
  via (fun (head, tail) => ⟨head, tail⟩) (pair name (many (skipThen (mark ".") name)))

variable (file : String)

/-- A reference to a type. -/
def typeRef : Phrase TypeRef :=
  via (·.typeRef file) dottedName

/-- A type, possibly with the mark of an array, and the name that has it. -/
def typedName : Phrase TypedName :=
  via (fun (type, isArray, name) =>
      { name := name.text, type := type, isArray := isArray, span := name.span file })
    (pair (typeRef file) (pair (flag "[]") name))

/-- The name of what a declaration extends. -/
def extendsClause : Phrase DottedName :=
  skipThen (mark "extends") dottedName

/-- The version of an element. -/
def version : Phrase VersionText :=
  via (fun (first, _, _, major, _, minor, last) => ⟨major, minor, first.spanTo last file⟩)
    (pair (mark "version") (pair (mark "\x7b") (pair (mark "major") (pair (token .number)
      (pair (mark "minor") (pair (token .number) (mark "\x7d")))))))

/-! ## Type declarations -/

/-- The value given to an enumerator. -/
def enumValue : Phrase String :=
  oneOf [
    via Token.text (token .number),
    via (fun word => String.ofList (quotedText word.lexeme)) (token .string),
    via DottedName.text dottedName]

/-- An enumerator, possibly with a value and a comma. -/
def enumerator : Phrase Enumerator :=
  via (fun (name, value, _) => { name := name.text, value := value, span := name.span file })
    (pair name (pair (optional (skipThen (mark "=") enumValue)) (flag ",")))

/-- An enumeration. -/
def enumeration : Phrase TypeDecl :=
  via (fun (name, base, enumerators) =>
      { name := name.text, span := name.span file,
        body := .enumeration enumerators (base.map (·.declaredRef file)) })
    (skipThen (mark "enumeration")
      (pair name (pair (optional extendsClause) (braced (many (enumerator file))))))

/-- A map from keys to values. -/
def mapType : Phrase TypeDecl :=
  via (fun (name, key, value) =>
      { name := name.text, span := name.span file, body := .map key value })
    (skipThen (mark "map")
      (pair name (braced (pair (typeRef file) (skipThen (mark "to") (typeRef file))))))

/-- Another name for a type. -/
def aliasType : Phrase TypeDecl :=
  via (fun (name, target) =>
      { name := name.text, span := name.span file, body := .synonym target })
    (skipThen (mark "typedef") (pair name (skipThen (mark "is") (typeRef file))))

/-- A struct, which extends another one, is the root of a hierarchy, or neither. -/
def structType : Phrase TypeDecl :=
  via (fun (name, base, fields) =>
      { name := name.text, span := name.span file,
        body := .struct fields (base.map (·.declaredRef file)) })
    (skipThen (mark "struct")
      (pair name (pair
        (oneOf [
          via some extendsClause,
          via (fun _ => none) (mark "polymorphic"),
          done none])
        (braced (many (typedName file))))))

/-- A union. -/
def unionType : Phrase TypeDecl :=
  via (fun (name, base, fields) =>
      { name := name.text, span := name.span file,
        body := .union fields (base.map (·.declaredRef file)) })
    (skipThen (mark "union")
      (pair name (pair (optional extendsClause) (braced (many (typedName file))))))

/-- A sequence of items of one type. -/
def arrayType : Phrase TypeDecl :=
  via (fun (name, element) =>
      { name := name.text, span := name.span file, body := .array element })
    (skipThen (mark "array") (pair name (skipThen (mark "of") (typeRef file))))

/-- A type declaration. -/
def typeDecl : Phrase TypeDecl :=
  skipThen (flag "public")
    (oneOf [enumeration file, mapType file, aliasType file, structType file, unionType file,
      arrayType file])

/-! ## Members of interfaces -/

/-- An attribute with its flags. -/
def attributeDecl : Phrase TypedName :=
  skipThen (mark "attribute")
    (thenSkip (typedName file)
      (many (oneOf [mark "readonly", mark "noSubscriptions", mark "noRead"])))

/-- A list of arguments behind its keyword, empty if it is left out. -/
def arguments (keyword : String) : Phrase (List TypedName) :=
  either (skipThen (mark keyword) (braced (many (typedName file)))) (done [])

/-- The errors of a method: a name, or an enumeration in place. The model keeps neither. -/
def errorClause : Phrase Unit :=
  skipThen (mark "error")
    (either (via (fun _ => ()) dottedName)
      (via (fun _ => ())
        (pair (optional extendsClause) (braced (many (enumerator file))))))

/-- A method. -/
def methodDecl : Phrase Method :=
  via (fun (name, fireAndForget, inArgs, outArgs, _) =>
      { name := name.text, inArgs := inArgs, outArgs := outArgs,
        fireAndForget := fireAndForget, span := name.span file })
    (skipThen (mark "method")
      (pair name (pair (flag "fireAndForget")
        (braced (pair (arguments file "in") (pair (arguments file "out")
          (optional (errorClause file))))))))

/-- A broadcast. -/
def broadcastDecl : Phrase Broadcast :=
  via (fun (name, _, outArgs) =>
      { name := name.text, outArgs := outArgs, span := name.span file })
    (skipThen (mark "broadcast")
      (pair name (pair (flag "selective") (braced (arguments file "out")))))

/-- A member of an interface. -/
def member : Phrase Member :=
  oneOf [via .attribute (attributeDecl file), via .method (methodDecl file),
    via .broadcast (broadcastDecl file), via .type (typeDecl file)]

/-! ## Files -/

/-- A type collection. Without a name, its place is that of the whole collection. -/
def typeCollection : Phrase Definition :=
  via (fun (first, name, _, version, types, last) =>
      .collection
        { name := (name.map Token.text).getD "",
          types := types,
          span := (name.map (·.span file)).getD (first.spanTo last file) }
        version)
    (pair (mark "typeCollection") (pair (optional name) (pair (mark "\x7b")
      (pair (optional (version file)) (pair (many (typeDecl file)) (mark "\x7d"))))))

/-- The names of what an interface manages. -/
def managesClause : Phrase (List DottedName) :=
  via (fun (first, others) => first :: others)
    (skipThen (mark "manages") (pair dottedName (many (skipThen (mark ",") dottedName))))

/-- An interface. -/
def interface : Phrase Definition :=
  via (fun (name, base, managed, version, members) =>
      .interface
        { name := name.text,
          types := members.filterMap Member.type?,
          span := name.span file,
          methods := members.filterMap Member.method?,
          attributes := members.filterMap Member.attribute?,
          broadcasts := members.filterMap Member.broadcast?,
          base := base.map DottedName.text,
          managed := (managed.getD []).map DottedName.text }
        version)
    (skipThen (mark "interface")
      (pair name (pair (optional extendsClause) (pair (optional managesClause)
        (braced (pair (optional (version file)) (many (member file))))))))

/-- A package declaration: the keyword and the name. -/
def packageClause : Phrase (Token × DottedName) :=
  pair (mark "package") dottedName

/-- An import of a whole model or of a namespace. -/
def importClause : Phrase Import :=
  via (fun (first, ns, uri) =>
      { uri := String.ofList (quotedText uri.lexeme), ns := ns, span := first.spanTo uri file })
    (pair (mark "import")
      (either
        (pair (via (fun _ => none) (mark "model")) (token .string))
        (pair
          (via (fun (name, all) => some (if all then name.text ++ ".*" else name.text))
            (pair dottedName (flag ".*")))
          (skipThen (mark "from") (token .string)))))

/-- A whole file. -/
def draft : Phrase Draft :=
  via (fun ((first, name), imports, definitions) =>
      { package := name.text,
        span := first.spanTo (name.tail.getLast?.getD name.head) file,
        imports := imports,
        definitions := definitions })
    (pair packageClause
      (pair (many (importClause file)) (many (either (typeCollection file) (interface file)))))

end FrancaLint.Source
