import FrancaLint.Proofs.Source.Languages
import FrancaLint.Source.Grammar

/-! # The grammar of files

The grammar of the language, rule by rule, as languages of terminals, without the values that a
reader makes of them.

* `Grammar.start`, the language of whole files, and the rules behind it.
* `language_draft`: the phrase that files are read against has this language. -/

namespace FrancaLint.Source

open Computability

namespace Grammar

/-! ## Rules -/

/-- A keyword or a mark. -/
@[simp] def mark (spelling : String) : Language Terminal :=
  {[.fixed spelling]}

/-- An identifier. -/
@[simp] def name : Language Terminal :=
  {[.name]}

/-- A number. -/
@[simp] def number : Language Terminal :=
  {[.number]}

/-- A quoted text. -/
@[simp] def string : Language Terminal :=
  {[.string]}

/-- What may be left out. -/
@[simp] def optional (language : Language Terminal) : Language Terminal :=
  language + 1

/-- What stands between braces. -/
@[simp] def braced (language : Language Terminal) : Language Terminal :=
  mark "\x7b" * language * mark "\x7d"

/-- Names joined by dots. -/
def dottedName : Language Terminal :=
  name * (mark "." * name)∗

/-- A type and the name that has it, with the mark of an array or without: a field or an
argument. -/
def typedName : Language Terminal :=
  dottedName * optional (mark "[]") * name

/-- What a declaration extends. -/
def extendsClause : Language Terminal :=
  mark "extends" * dottedName

/-- What an interface manages. -/
def managesClause : Language Terminal :=
  mark "manages" * dottedName * (mark "," * dottedName)∗

/-- The version of an element. -/
def version : Language Terminal :=
  mark "version" * braced (mark "major" * number * mark "minor" * number)

/-- The value of an enumerator. -/
def enumValue : Language Terminal :=
  number + string + dottedName

/-- An enumerator. -/
def enumerator : Language Terminal :=
  name * optional (mark "=" * enumValue) * optional (mark ",")

/-- An enumeration. -/
def enumDef : Language Terminal :=
  mark "enumeration" * name * optional extendsClause * braced enumerator∗

/-- A map. -/
def mapDef : Language Terminal :=
  mark "map" * name * braced (dottedName * mark "to" * dottedName)

/-- Another name for a type. -/
def typedefDef : Language Terminal :=
  mark "typedef" * name * mark "is" * dottedName

/-- A struct. -/
def structDef : Language Terminal :=
  mark "struct" * name * optional (extendsClause + mark "polymorphic") * braced typedName∗

/-- A union. -/
def unionDef : Language Terminal :=
  mark "union" * name * optional extendsClause * braced typedName∗

/-- An array. -/
def arrayDef : Language Terminal :=
  mark "array" * name * mark "of" * dottedName

/-- A type declaration. -/
def typeDef : Language Terminal :=
  optional (mark "public") * (enumDef + mapDef + typedefDef + structDef + unionDef + arrayDef)

/-- A flag of an attribute. -/
def attributeFlag : Language Terminal :=
  mark "readonly" + mark "noSubscriptions" + mark "noRead"

/-- An attribute. -/
def attributeDecl : Language Terminal :=
  mark "attribute" * dottedName * optional (mark "[]") * name * attributeFlag∗

/-- A list of arguments behind its keyword. -/
def arguments (keyword : String) : Language Terminal :=
  mark keyword * braced typedName∗

/-- The errors of a method. -/
def errorSpec : Language Terminal :=
  mark "error" * dottedName + mark "error" * optional extendsClause * braced enumerator∗

/-- A method. -/
def methodDecl : Language Terminal :=
  mark "method" * name * optional (mark "fireAndForget") *
    braced (optional (arguments "in") * optional (arguments "out") * optional errorSpec)

/-- A broadcast. -/
def broadcastDecl : Language Terminal :=
  mark "broadcast" * name * optional (mark "selective") * braced (optional (arguments "out"))

/-- A member of an interface. -/
def member : Language Terminal :=
  attributeDecl + methodDecl + broadcastDecl + typeDef

/-- A type collection. -/
def typeCollection : Language Terminal :=
  mark "typeCollection" * optional name * braced (optional version * typeDef∗)

/-- An interface. -/
def interface : Language Terminal :=
  mark "interface" * name * optional extendsClause * optional managesClause *
    braced (optional version * member∗)

/-- A package declaration. -/
def packageDecl : Language Terminal :=
  mark "package" * dottedName

/-- The namespace of an import. -/
def importNamespace : Language Terminal :=
  dottedName * optional (mark ".*")

/-- An import of a namespace or of a whole model. -/
def importDecl : Language Terminal :=
  mark "import" * importNamespace * mark "from" * string + mark "import" * mark "model" * string

/-- A whole file. -/
def start : Language Terminal :=
  packageDecl * importDecl∗ * (typeCollection + interface)∗

end Grammar

/-! ## Phrases and rules -/

open Phrase

/-- Names joined by dots. -/
@[simp] theorem language_dottedName : dottedName.language = Grammar.dottedName := by
  simp [dottedName, Grammar.dottedName]

/-- What a declaration extends. -/
@[simp] theorem language_extendsClause : extendsClause.language = Grammar.extendsClause := by
  simp [extendsClause, Grammar.extendsClause]

/-- What an interface manages. -/
@[simp] theorem language_managesClause : managesClause.language = Grammar.managesClause := by
  simp [managesClause, Grammar.managesClause, mul_assoc]

/-- The value of an enumerator. -/
@[simp] theorem language_enumValue : enumValue.language = Grammar.enumValue := by
  simp [enumValue, Grammar.enumValue, add_assoc, -add_eq_sup]

/-- A package declaration. -/
@[simp] theorem language_packageClause : packageClause.language = Grammar.packageDecl := by
  simp [packageClause, Grammar.packageDecl]

variable (file : String)

/-- A reference to a type. -/
@[simp] theorem language_typeRef : (typeRef file).language = Grammar.dottedName := by
  simp [typeRef]

/-- A type and the name that has it. -/
@[simp] theorem language_typedName : (typedName file).language = Grammar.typedName := by
  simp [typedName, Grammar.typedName, mul_assoc]

/-- The version of an element. -/
@[simp] theorem language_version : (version file).language = Grammar.version := by
  simp [version, Grammar.version, mul_assoc]

/-! ### Type declarations -/

/-- An enumerator. -/
@[simp] theorem language_enumerator : (enumerator file).language = Grammar.enumerator := by
  simp [enumerator, Grammar.enumerator, mul_assoc]

/-- An enumeration. -/
@[simp] theorem language_enumeration : (enumeration file).language = Grammar.enumDef := by
  simp [enumeration, Grammar.enumDef, mul_assoc]

/-- A map. -/
@[simp] theorem language_mapType : (mapType file).language = Grammar.mapDef := by
  simp [mapType, Grammar.mapDef, mul_assoc]

/-- Another name for a type. -/
@[simp] theorem language_aliasType : (aliasType file).language = Grammar.typedefDef := by
  simp [aliasType, Grammar.typedefDef, mul_assoc]

/-- A struct. -/
@[simp] theorem language_structType : (structType file).language = Grammar.structDef := by
  simp [structType, Grammar.structDef, mul_assoc, add_assoc, -add_eq_sup]

/-- A union. -/
@[simp] theorem language_unionType : (unionType file).language = Grammar.unionDef := by
  simp [unionType, Grammar.unionDef, mul_assoc]

/-- An array. -/
@[simp] theorem language_arrayType : (arrayType file).language = Grammar.arrayDef := by
  simp [arrayType, Grammar.arrayDef, mul_assoc]

/-- A type declaration. -/
@[simp] theorem language_typeDecl : (typeDecl file).language = Grammar.typeDef := by
  simp [typeDecl, Grammar.typeDef, add_assoc, -add_eq_sup]

/-! ### Members of interfaces -/

/-- An attribute. -/
@[simp] theorem language_attributeDecl :
    (attributeDecl file).language = Grammar.attributeDecl := by
  simp [attributeDecl, Grammar.attributeDecl, Grammar.attributeFlag, Grammar.typedName, mul_assoc,
    add_assoc, -add_eq_sup]

/-- A list of arguments, which may be left out. -/
@[simp] theorem language_arguments (keyword : String) :
    (arguments file keyword).language = Grammar.optional (Grammar.arguments keyword) := by
  simp [arguments, Grammar.arguments, mul_assoc]

/-- The errors of a method. -/
@[simp] theorem language_errorClause : (errorClause file).language = Grammar.errorSpec := by
  have hsides : (errorClause file).language = Grammar.mark "error" * (Grammar.dottedName +
      Grammar.optional Grammar.extendsClause * Grammar.braced Grammar.enumerator∗) := by
    simp [errorClause, mul_assoc]
  rw [hsides, mul_add, Grammar.errorSpec, mul_assoc]

/-- A method. -/
@[simp] theorem language_methodDecl : (methodDecl file).language = Grammar.methodDecl := by
  simp [methodDecl, Grammar.methodDecl, mul_assoc]

/-- A broadcast. -/
@[simp] theorem language_broadcastDecl :
    (broadcastDecl file).language = Grammar.broadcastDecl := by
  simp [broadcastDecl, Grammar.broadcastDecl, mul_assoc]

/-- A member of an interface. -/
@[simp] theorem language_member : (member file).language = Grammar.member := by
  simp [member, Grammar.member, add_assoc, -add_eq_sup]

/-! ### Files -/

/-- A type collection. -/
@[simp] theorem language_typeCollection :
    (typeCollection file).language = Grammar.typeCollection := by
  simp [typeCollection, Grammar.typeCollection, mul_assoc]

/-- An interface. -/
@[simp] theorem language_interface : (Source.interface file).language = Grammar.interface := by
  simp [Source.interface, Grammar.interface, mul_assoc]

/-- An import. -/
@[simp] theorem language_importClause : (importClause file).language = Grammar.importDecl := by
  have hsides : (importClause file).language = Grammar.mark "import" *
      (Grammar.mark "model" * Grammar.string +
        Grammar.importNamespace * (Grammar.mark "from" * Grammar.string)) := by
    simp [importClause, Grammar.importNamespace]
  rw [hsides, mul_add, add_comm, Grammar.importDecl, mul_assoc, mul_assoc, mul_assoc]

/-- The phrase of a file has the language of the grammar. -/
theorem language_draft : (draft file).language = Grammar.start := by
  simp [draft, Grammar.start, mul_assoc]

end FrancaLint.Source
