import FrancaLint.Proofs.Source.Excerpts
import FrancaLint.Rule.ElementName

/-! # Documents that are read are well formed

The rules of the checker take for granted that names are names, that a reference has exactly one
target, and that every part says in which file it stands. The grammar gives all of this.

* `IsOneName` and `IsDotted`, the names that are declared and those that are referred to.
* `Document.WellFormedIn`, with one predicate for every kind of part.
* `wellFormedIn_typeRef` and its siblings: what a rule of the grammar reads is well formed.
* `parsed_document_is_wellFormed`: so is every document that is read from a text. -/

namespace FrancaLint

/-! ## Well-formed parts -/

/-- The text is **one name**: letters, digits and underscores, and no digit in front. -/
def IsOneName (name : String) : Prop :=
  Source.isName name.toList = true

/-- The text is made of names, at least one, with dots between them. -/
def IsDotted (name : String) : Prop :=
  ∃ names ≠ [], (∀ segment ∈ names, IsOneName segment) ∧ name = ".".intercalate names

/-- A reference is **well formed**: it has either a basic type or the dotted name of another one. -/
structure TypeRef.WellFormedIn (file : String) (ref : TypeRef) : Prop where
  /-- Exactly one of the two targets is there, and it is of its kind. -/
  target : (∃ name ∈ primitiveTypes, ref.predefined = some name ∧ ref.derived = none) ∨
    ∃ name, IsDotted name ∧ name ∉ primitiveTypes ∧
      ref.predefined = none ∧ ref.derived = some name
  /-- It stands in the file. -/
  span : ref.span.file = some file

/-- A reference is a well-formed **base**: it has a dotted name, whatever types there are. -/
structure TypeRef.IsBaseIn (file : String) (ref : TypeRef) : Prop where
  /-- The target is never a basic type. -/
  target : ∃ name, IsDotted name ∧ ref.predefined = none ∧ ref.derived = some name
  /-- It stands in the file. -/
  span : ref.span.file = some file

/-- A name with a type is **well formed**. -/
structure TypedName.WellFormedIn (file : String) (typed : TypedName) : Prop where
  /-- It has a name. -/
  name : IsOneName typed.name
  /-- Its type is well formed. -/
  type : typed.type.WellFormedIn file
  /-- It stands in the file. -/
  span : typed.span.file = some file

/-- An enumerator is **well formed**. -/
structure Enumerator.WellFormedIn (file : String) (enumerator : Enumerator) : Prop where
  /-- It has a name. -/
  name : IsOneName enumerator.name
  /-- It stands in the file. -/
  span : enumerator.span.file = some file

/-- What a type stands for is **well formed**. -/
def TypeBody.WellFormedIn (file : String) : TypeBody → Prop
  | enumeration enumerators base =>
      (∀ enumerator ∈ enumerators, enumerator.WellFormedIn file) ∧ ∀ ref ∈ base, ref.IsBaseIn file
  | map key value => key.WellFormedIn file ∧ value.WellFormedIn file
  | synonym target => target.WellFormedIn file
  | struct fields base | union fields base =>
      (∀ field ∈ fields, field.WellFormedIn file) ∧ ∀ ref ∈ base, ref.IsBaseIn file
  | array element => element.WellFormedIn file

/-- A type declaration is **well formed**. -/
structure TypeDecl.WellFormedIn (file : String) (decl : TypeDecl) : Prop where
  /-- It has a name. -/
  name : IsOneName decl.name
  /-- What it stands for is well formed. -/
  body : decl.body.WellFormedIn file
  /-- It stands in the file. -/
  span : decl.span.file = some file

/-- A method is **well formed**. -/
structure Method.WellFormedIn (file : String) (method : Method) : Prop where
  /-- It has a name. -/
  name : IsOneName method.name
  /-- The arguments that callers pass are well formed. -/
  inArgs : ∀ argument ∈ method.inArgs, argument.WellFormedIn file
  /-- The arguments that come back are well formed. -/
  outArgs : ∀ argument ∈ method.outArgs, argument.WellFormedIn file
  /-- It stands in the file. -/
  span : method.span.file = some file

/-- A broadcast is **well formed**. -/
structure Broadcast.WellFormedIn (file : String) (broadcast : Broadcast) : Prop where
  /-- It has a name. -/
  name : IsOneName broadcast.name
  /-- Its arguments are well formed. -/
  outArgs : ∀ argument ∈ broadcast.outArgs, argument.WellFormedIn file
  /-- It stands in the file. -/
  span : broadcast.span.file = some file

/-- A type collection is **well formed**; it may be anonymous. -/
structure TypeCollection.WellFormedIn (file : String) (c : TypeCollection) : Prop where
  /-- It has a name or none. -/
  name : c.name = "" ∨ IsOneName c.name
  /-- Its types are well formed. -/
  types : ∀ decl ∈ c.types, decl.WellFormedIn file
  /-- It stands in the file. -/
  span : c.span.file = some file

/-- An interface is **well formed**; it is never anonymous. -/
structure Interface.WellFormedIn (file : String) (i : Interface) : Prop where
  /-- It has a name. -/
  name : IsOneName i.name
  /-- Its types are well formed. -/
  types : ∀ decl ∈ i.types, decl.WellFormedIn file
  /-- Its methods are well formed. -/
  methods : ∀ method ∈ i.methods, method.WellFormedIn file
  /-- Its attributes are well formed. -/
  attributes : ∀ attr ∈ i.attributes, attr.WellFormedIn file
  /-- Its broadcasts are well formed. -/
  broadcasts : ∀ broadcast ∈ i.broadcasts, broadcast.WellFormedIn file
  /-- What it extends has a dotted name. -/
  base : ∀ name ∈ i.base, IsDotted name
  /-- What it manages has dotted names. -/
  managed : ∀ name ∈ i.managed, IsDotted name
  /-- It stands in the file. -/
  span : i.span.file = some file

/-- An element is **well formed**. -/
def Element.WellFormedIn (file : String) : Element → Prop
  | collection c => c.WellFormedIn file
  | interface i => i.WellFormedIn file

/-- A document is **well formed**: all of its parts are, and they stand in one file. -/
structure Document.WellFormedIn (file : String) (document : Document) : Prop where
  /-- The package has a dotted name. -/
  package : IsDotted document.package
  /-- The imports stand in the file. -/
  imports : ∀ i ∈ document.imports, i.span.file = some file
  /-- The elements are well formed. -/
  elements : ∀ element ∈ document.elements, element.WellFormedIn file
  /-- There is at most one anonymous type collection. -/
  anonymous : (document.typeCollections.filter (·.name.isEmpty)).length ≤ 1
  /-- The package is declared in the file. -/
  span : document.span.file = some file

/-- One name has no dots. -/
theorem IsOneName.dot_not_mem {name : String} (h : IsOneName name) : '.' ∉ name.toList :=
  fun hmem => absurd (Source.isNamePart_of_isName h '.' hmem) (by decide)

/-- The name of a well-formed element has no dots. -/
theorem Element.WellFormedIn.dot_not_mem {file : String} {element : Element}
    (h : element.WellFormedIn file) : '.' ∉ element.name.toList := by
  cases element with
  | collection c =>
    rcases h.name with hname | hname
    · show '.' ∉ c.name.toList
      simp [hname]
    · exact hname.dot_not_mem
  | interface i => exact h.name.dot_not_mem

/-- The rule on the names of elements finds nothing in a well-formed element. -/
theorem Element.WellFormedIn.elementName_eq_nil {file : String} {element : Element}
    (h : element.WellFormedIn file) (document : Document) :
    Rule.elementName document element = [] := by
  rw [Rule.elementName, if_neg h.dot_not_mem]

/-! ## Parts that are read -/

namespace Source

open Phrase

variable {file : String} {tokens : List Token}

/-- A reference to a basic type or a declared type is well formed. -/
theorem DottedName.wellFormedIn_typeRef {dotted : DottedName} (h : IsDotted dotted.text) :
    (dotted.typeRef file).WellFormedIn file := by
  unfold DottedName.typeRef
  split
  · next hbasic => exact ⟨.inl ⟨dotted.text, hbasic, rfl, rfl⟩, rfl⟩
  · next hother => exact ⟨.inr ⟨dotted.text, h, hother, rfl, rfl⟩, rfl⟩

/-- What a member declares is **well formed**. -/
def Member.WellFormedIn (file : String) : Member → Prop
  | .attribute a => a.WellFormedIn file
  | .method m => m.WellFormedIn file
  | .broadcast b => b.WellFormedIn file
  | .type t => t.WellFormedIn file

section Tokens

variable (htokens : ∀ t ∈ tokens, t.terminal = .name → isName t.lexeme = true)
include htokens

/-- A token of a name has one name. -/
theorem isOneName_of_occurs {t : Token} (h : Phrase.name.Occurs tokens t) : IsOneName t.text := by
  rw [IsOneName, Token.text, String.toList_ofList]
  exact htokens t h.token.1 h.token.2

/-- The text of a dotted name is one. -/
theorem isDotted_of_occurs {dotted : DottedName} (h : dottedName.Occurs tokens dotted) :
    IsDotted dotted.text := by
  obtain ⟨⟨head, tail⟩, hparts, rfl⟩ := h.via
  refine ⟨(head :: tail).map Token.text, by simp, ?_, rfl⟩
  rw [List.forall_mem_map, List.forall_mem_cons]
  exact ⟨isOneName_of_occurs htokens hparts.pair.1,
    fun t ht => isOneName_of_occurs htokens (hparts.pair.2.many t ht).skipThen⟩

/-- A reference to a type. -/
theorem wellFormedIn_typeRef {ref : TypeRef} (h : (typeRef file).Occurs tokens ref) :
    ref.WellFormedIn file := by
  obtain ⟨dotted, hdotted, rfl⟩ := h.via
  exact DottedName.wellFormedIn_typeRef (isDotted_of_occurs htokens hdotted)

/-- A type and the name that has it. -/
theorem wellFormedIn_typedName {typed : TypedName} (h : (typedName file).Occurs tokens typed) :
    typed.WellFormedIn file := by
  obtain ⟨⟨type, isArray, name⟩, hparts, rfl⟩ := h.via
  obtain ⟨htype, hparts⟩ := hparts.pair
  exact ⟨isOneName_of_occurs htokens hparts.pair.2, wellFormedIn_typeRef htokens htype, rfl⟩

/-- Typed names between braces. -/
theorem wellFormedIn_typedNames {typed : List TypedName}
    (h : (braced (many (typedName file))).Occurs tokens typed) :
    ∀ t ∈ typed, t.WellFormedIn file :=
  fun t ht => wellFormedIn_typedName htokens (h.braced.many t ht)

/-- What a declaration extends. -/
theorem isBaseIn_of_occurs {base : Option DottedName}
    (h : ∀ dotted ∈ base, extendsClause.Occurs tokens dotted) :
    ∀ ref ∈ base.map (·.declaredRef file), ref.IsBaseIn file := by
  intro ref href
  obtain ⟨dotted, hdotted, rfl⟩ := Option.mem_map.mp href
  exact ⟨⟨dotted.text, isDotted_of_occurs htokens (h dotted hdotted).skipThen, rfl, rfl⟩, rfl⟩

/-- An enumerator. -/
theorem wellFormedIn_enumerator {enumerator : Enumerator}
    (h : (Source.enumerator file).Occurs tokens enumerator) : enumerator.WellFormedIn file := by
  obtain ⟨⟨name, value, comma⟩, hparts, rfl⟩ := h.via
  exact ⟨isOneName_of_occurs htokens hparts.pair.1, rfl⟩

/-- An enumeration. -/
theorem wellFormedIn_enumeration {decl : TypeDecl} (h : (enumeration file).Occurs tokens decl) :
    decl.WellFormedIn file := by
  obtain ⟨⟨name, base, enumerators⟩, hparts, rfl⟩ := h.via
  obtain ⟨hname, hparts⟩ := hparts.skipThen.pair
  obtain ⟨hbase, henumerators⟩ := hparts.pair
  refine ⟨isOneName_of_occurs htokens hname, ⟨?_, isBaseIn_of_occurs htokens hbase.optional⟩, rfl⟩
  exact fun e he => wellFormedIn_enumerator htokens (henumerators.braced.many e he)

/-- A map. -/
theorem wellFormedIn_mapType {decl : TypeDecl} (h : (mapType file).Occurs tokens decl) :
    decl.WellFormedIn file := by
  obtain ⟨⟨name, key, value⟩, hparts, rfl⟩ := h.via
  obtain ⟨hname, hparts⟩ := hparts.skipThen.pair
  obtain ⟨hkey, hvalue⟩ := hparts.braced.pair
  exact ⟨isOneName_of_occurs htokens hname,
    ⟨wellFormedIn_typeRef htokens hkey, wellFormedIn_typeRef htokens hvalue.skipThen⟩, rfl⟩

/-- Another name for a type. -/
theorem wellFormedIn_aliasType {decl : TypeDecl} (h : (aliasType file).Occurs tokens decl) :
    decl.WellFormedIn file := by
  obtain ⟨⟨name, target⟩, hparts, rfl⟩ := h.via
  obtain ⟨hname, htarget⟩ := hparts.skipThen.pair
  exact ⟨isOneName_of_occurs htokens hname, wellFormedIn_typeRef htokens htarget.skipThen, rfl⟩

/-- A struct. -/
theorem wellFormedIn_structType {decl : TypeDecl} (h : (structType file).Occurs tokens decl) :
    decl.WellFormedIn file := by
  obtain ⟨⟨name, base, fields⟩, hparts, rfl⟩ := h.via
  obtain ⟨hname, hparts⟩ := hparts.skipThen.pair
  obtain ⟨hbase, hfields⟩ := hparts.pair
  exact ⟨isOneName_of_occurs htokens hname, ⟨wellFormedIn_typedNames htokens hfields,
    isBaseIn_of_occurs htokens (occurs_structBase hbase)⟩, rfl⟩

/-- A union. -/
theorem wellFormedIn_unionType {decl : TypeDecl} (h : (unionType file).Occurs tokens decl) :
    decl.WellFormedIn file := by
  obtain ⟨⟨name, base, fields⟩, hparts, rfl⟩ := h.via
  obtain ⟨hname, hparts⟩ := hparts.skipThen.pair
  obtain ⟨hbase, hfields⟩ := hparts.pair
  exact ⟨isOneName_of_occurs htokens hname, ⟨wellFormedIn_typedNames htokens hfields,
    isBaseIn_of_occurs htokens hbase.optional⟩, rfl⟩

/-- An array. -/
theorem wellFormedIn_arrayType {decl : TypeDecl} (h : (arrayType file).Occurs tokens decl) :
    decl.WellFormedIn file := by
  obtain ⟨⟨name, element⟩, hparts, rfl⟩ := h.via
  obtain ⟨hname, helement⟩ := hparts.skipThen.pair
  exact ⟨isOneName_of_occurs htokens hname, wellFormedIn_typeRef htokens helement.skipThen, rfl⟩

/-- A type declaration. -/
theorem wellFormedIn_typeDecl {decl : TypeDecl} (h : (typeDecl file).Occurs tokens decl) :
    decl.WellFormedIn file := by
  obtain ⟨kind, hkind, h⟩ := h.skipThen.oneOf
  simp only [List.mem_cons, List.not_mem_nil, or_false] at hkind
  rcases hkind with rfl | rfl | rfl | rfl | rfl | rfl
  · exact wellFormedIn_enumeration htokens h
  · exact wellFormedIn_mapType htokens h
  · exact wellFormedIn_aliasType htokens h
  · exact wellFormedIn_structType htokens h
  · exact wellFormedIn_unionType htokens h
  · exact wellFormedIn_arrayType htokens h

/-- A list of arguments. -/
theorem wellFormedIn_arguments {keyword : String} {typed : List TypedName}
    (h : (arguments file keyword).Occurs tokens typed) : ∀ t ∈ typed, t.WellFormedIn file := by
  rcases h.either with h | ⟨part, -, hyields⟩
  · exact wellFormedIn_typedNames htokens h.skipThen
  · rw [(yields_done_iff.mp hyields).2]
    exact List.forall_mem_nil _

/-- A method. -/
theorem wellFormedIn_methodDecl {method : Method} (h : (methodDecl file).Occurs tokens method) :
    method.WellFormedIn file := by
  obtain ⟨⟨name, flag, inArgs, outArgs, _⟩, hparts, rfl⟩ := h.via
  obtain ⟨hname, hparts⟩ := hparts.skipThen.pair
  obtain ⟨hin, hparts⟩ := hparts.pair.2.braced.pair
  exact ⟨isOneName_of_occurs htokens hname, wellFormedIn_arguments htokens hin,
    wellFormedIn_arguments htokens hparts.pair.1, rfl⟩

/-- A broadcast. -/
theorem wellFormedIn_broadcastDecl {broadcast : Broadcast}
    (h : (broadcastDecl file).Occurs tokens broadcast) : broadcast.WellFormedIn file := by
  obtain ⟨⟨name, flag, outArgs⟩, hparts, rfl⟩ := h.via
  obtain ⟨hname, hparts⟩ := hparts.skipThen.pair
  exact ⟨isOneName_of_occurs htokens hname, wellFormedIn_arguments htokens hparts.pair.2.braced,
    rfl⟩

/-- A member. -/
theorem wellFormedIn_member {m : Member} (h : (member file).Occurs tokens m) :
    m.WellFormedIn file := by
  obtain ⟨kind, hkind, hmember⟩ := h.oneOf
  simp only [List.mem_cons, List.not_mem_nil, or_false] at hkind
  rcases hkind with rfl | rfl | rfl | rfl <;> obtain ⟨a, ha, rfl⟩ := hmember.via
  · exact wellFormedIn_typedName htokens ha.skipThen.thenSkip
  · exact wellFormedIn_methodDecl htokens ha
  · exact wellFormedIn_broadcastDecl htokens ha
  · exact wellFormedIn_typeDecl htokens ha

/-- A type collection. -/
theorem wellFormedIn_typeCollection {definition : Definition}
    (h : (typeCollection file).Occurs tokens definition) : definition.bare.WellFormedIn file := by
  obtain ⟨⟨first, name, _, version, types, last⟩, hparts, rfl⟩ := h.via
  obtain ⟨hname, hparts⟩ := hparts.pair.2.pair
  have htypes : ∀ decl ∈ types, decl.WellFormedIn file := fun decl hdecl =>
    wellFormedIn_typeDecl htokens (hparts.pair.2.pair.2.pair.1.many decl hdecl)
  -- without a name, the collection stands where its keyword and its last brace do
  cases name with
  | none => exact ⟨.inl rfl, htypes, rfl⟩
  | some t => exact ⟨.inr (isOneName_of_occurs htokens (hname.optional t rfl)), htypes, rfl⟩

/-- What an interface manages. -/
theorem isDotted_of_managesClause {managed : List DottedName}
    (h : managesClause.Occurs tokens managed) : ∀ dotted ∈ managed, IsDotted dotted.text := by
  obtain ⟨⟨first, others⟩, hparts, rfl⟩ := h.via
  obtain ⟨hfirst, hothers⟩ := hparts.skipThen.pair
  exact List.forall_mem_cons.mpr ⟨isDotted_of_occurs htokens hfirst,
    fun dotted hdotted => isDotted_of_occurs htokens (hothers.many dotted hdotted).skipThen⟩

/-- An interface. -/
theorem wellFormedIn_interface {definition : Definition}
    (h : (Source.interface file).Occurs tokens definition) : definition.bare.WellFormedIn file := by
  obtain ⟨⟨name, base, managed, version, members⟩, hparts, rfl⟩ := h.via
  obtain ⟨hname, hparts⟩ := hparts.skipThen.pair
  obtain ⟨hbase, hparts⟩ := hparts.pair
  obtain ⟨hmanaged, hparts⟩ := hparts.pair
  have hmembers : ∀ m ∈ members, m.WellFormedIn file :=
    fun m hm => wellFormedIn_member htokens (hparts.braced.pair.2.many m hm)
  refine ⟨isOneName_of_occurs htokens hname, ?types, ?methods, ?attributes, ?broadcasts, ?base,
    ?managed, rfl⟩
  case base =>
    intro text htext
    obtain ⟨dotted, hdotted, rfl⟩ := Option.mem_map.mp htext
    exact isDotted_of_occurs htokens (hbase.optional dotted hdotted).skipThen
  case managed =>
    rw [List.forall_mem_map]
    cases managed with
    | none => exact List.forall_mem_nil _
    | some clause => exact isDotted_of_managesClause htokens (hmanaged.optional clause rfl)
  -- each list of an interface has the members of one kind
  all_goals
    intro a ha
    obtain ⟨m, hm, hkind⟩ := List.mem_filterMap.mp ha
    have hwell := hmembers m hm
    cases m <;> cases hkind
    exact hwell

/-- A definition. -/
theorem wellFormedIn_definition {definition : Definition}
    (h : (either (typeCollection file) (Source.interface file)).Occurs tokens definition) :
    definition.bare.WellFormedIn file := by
  rcases h.either with h | h
  · exact wellFormedIn_typeCollection htokens h
  · exact wellFormedIn_interface htokens h

end Tokens

/-- An element is as well formed as the definition it comes from: the version does not matter. -/
theorem Definition.wellFormedIn_element {definition : Definition} {element : Element}
    (h : definition.element = .ok element) (hbare : definition.bare.WellFormedIn file) :
    element.WellFormedIn file := by
  rcases Definition.eq_of_element h with
    ⟨c, version, numbers, rfl, rfl⟩ | ⟨i, version, numbers, rfl, rfl⟩
  · exact ⟨hbare.name, hbare.types, hbare.span⟩
  · exact ⟨hbare.name, hbare.types, hbare.methods, hbare.attributes, hbare.broadcasts, hbare.base,
      hbare.managed, hbare.span⟩

end Source

/-! ## Documents -/

open Source Phrase

section Read

variable {text path : String} {digest : Option String} {document : Document}

/-- The tokens of names in a text have the characters of names. -/
theorem isName_of_mem_scanFile (text path : String) :
    ∀ t ∈ (scanFile path text).1, t.terminal = .name → isName t.lexeme = true := by
  intro t ht hname
  obtain ⟨stop, left, hreads, -⟩ := (scans_scanFile path text).reads
  obtain ⟨_, _, _, -, htaken⟩ := hreads.exists_taken ht
  exact htaken.isName hname

/-- The package of a document that is read is a dotted name in the file. -/
theorem package_of_ofSource (h : Document.ofSource text path digest = .ok document) :
    IsDotted document.package ∧ document.span.file = some path := by
  obtain ⟨tokens, draft, hscan, hdraft⟩ := exists_draft_of_ofSource h
  obtain ⟨elements, -, -, rfl⟩ := draft.exists_elements_of_document hdraft
  have hoccurs : (Source.draft path).Occurs (scanFile path text).1 draft := by
    rw [hscan]
    exact .of_yields (yields_of_scanFile hscan)
  obtain ⟨⟨⟨first, name⟩, imports, definitions⟩, hparts, rfl⟩ := hoccurs.via
  exact ⟨isDotted_of_occurs (isName_of_mem_scanFile text path) hparts.pair.1.pair.2, rfl⟩

/-- At most one type collection of a document that is read is anonymous. -/
theorem anonymous_of_ofSource (h : Document.ofSource text path digest = .ok document) :
    (document.typeCollections.filter (·.name.isEmpty)).length ≤ 1 := by
  obtain ⟨tokens, draft, -, hdraft⟩ := exists_draft_of_ofSource h
  obtain ⟨elements, -, hanonymous, rfl⟩ := draft.exists_elements_of_document hdraft
  exact hanonymous

/-- **Every document that is read from a text is well formed**: its names are names, its references
have one target of the right kind, and all of its parts stand in the file. So the rule on the names
of elements finds nothing. -/
theorem parsed_document_is_wellFormed (h : Document.ofSource text path digest = .ok document) :
    document.WellFormedIn path ∧
      ∀ element ∈ document.elements, Rule.elementName document element = [] := by
  have helements : ∀ element ∈ document.elements, element.WellFormedIn path := by
    intro element helement
    obtain ⟨definition, hdefinition, hversion⟩ := occurs_of_mem_elements h helement
    exact Definition.wellFormedIn_element hversion
      (wellFormedIn_definition (isName_of_mem_scanFile text path) hdefinition)
  obtain ⟨hpackage, hspan⟩ := package_of_ofSource h
  refine ⟨⟨hpackage, fun i hi => ?_, helements, anonymous_of_ofSource h, hspan⟩,
    fun element helement => (helements element helement).elementName_eq_nil document⟩
  obtain ⟨parts, -, rfl⟩ := (occurs_of_mem_imports h hi).via
  rfl

end Read

/-- A file in which keywords are names, and basic types are extended. -/
def keywordText : String :=
  "package is /* of */ . map\nimport model \"a.fidl\"\n" ++
    "typeCollection \x7b struct to extends Int8 \x7b String[] in q.Int8 out \x7d \x7d\n" ++
    "interface I extends String manages a . b, c \x7b method m \x7b out \x7b I.to x \x7d \x7d \x7d"

/-- Its document. -/
def keywordDocument : Document :=
  let at_ (line column endColumn : Int) : Span :=
    ⟨some "p.fidl", some line, some column, some line, some endColumn⟩
  let structDecl : TypeDecl := {
    name := "to", span := at_ 3 25 27,
    body := .struct
      [{ name := "in", type := { predefined := some "String", span := at_ 3 43 49 },
         isArray := true, span := at_ 3 52 54 },
       { name := "out", type := { derived := some "q.Int8", span := at_ 3 55 61 },
         span := at_ 3 62 65 }]
      (some { derived := some "Int8", span := at_ 3 36 40 }) }
  let method : Method := {
    name := "m", span := at_ 4 54 55,
    outArgs := [{
      name := "x", type := { derived := some "I.to", span := at_ 4 64 68 }, span := at_ 4 69 70 }] }
  { package := "is.map", sourcePath := "p.fidl", span := at_ 1 1 26,
    imports := [{ uri := "a.fidl", span := at_ 2 1 22 }],
    typeCollections := [{ name := "", types := [structDecl], span := at_ 3 1 69 }],
    interfaces := [{
      name := "I", span := at_ 4 11 12, methods := [method], base := some "String",
      managed := ["a.b", "c"] }] }

/-- The document is well formed. -/
theorem wellFormedIn_keywordText :
    Document.ofSource keywordText "p.fidl" = .ok keywordDocument ∧
      keywordDocument.WellFormedIn "p.fidl" ∧
        ∀ element ∈ keywordDocument.elements, Rule.elementName keywordDocument element = [] := by
  have hread : Document.ofSource keywordText "p.fidl" = .ok keywordDocument := by decide +kernel
  exact ⟨hread, parsed_document_is_wellFormed hread⟩

end FrancaLint
