import FrancaLint.Proofs.Source.Literals

/-! # Reading the parts of a document

Each rule of the grammar reads what is written for it: the words of a part of a document are a
sentence of the rule, and the value of the sentence is that part, apart from the spans.

* `writes_typeRef` and `writes_typedName`, from which the declarations are made.
* `writes_typeDecl` and `writes_member`, the declarations in an element.
* `writes_typeCollection` and `writes_interface`, the elements.
* `writes_importClause`. -/

namespace FrancaLint.Source

open Phrase

variable (file : String)

/-! ## Names and types -/

/-- A dotted name is read as it is written. -/
theorem writes_dottedName {name : String} (h : IsDottedName name) :
    dottedName.Writes (dottedWords name) fun dotted => dotted.text = name := by
  unfold dottedWords
  split
  · next hnil => exact absurd hnil (segments_ne_nil name)
  · next head tail hsegments =>
    rw [IsDottedName, hsegments, List.forall_mem_cons] at h
    have htail : (Phrase.many (skipThen (mark ".") Phrase.name)).Writes
        (tail.flatMap fun segment => [markWord ".", nameWord segment])
        fun tokens => tokens.map Token.text = tail.map id :=
      Writes.many fun segment hsegment =>
        (Writes.mark (by decide)).skipThen (Writes.name (h.2 segment hsegment))
    refine (((Writes.name h.1).pair htail).mono ?_).via
    rintro ⟨first, others⟩ ⟨hfirst, hothers⟩
    rw [DottedName.text, List.map_cons, hfirst, hothers, List.map_id, ← hsegments]
    exact intercalate_segments name

/-- Basic types are identifiers. -/
theorem isDottedName_of_mem_primitiveTypes {name : String} (h : name ∈ primitiveTypes) :
    IsDottedName name := by
  have hall : ∀ name ∈ primitiveTypes, IsDottedName name := by decide
  exact hall name h

/-- A reference is read as it is written, apart from its place. -/
theorem writes_typeRef {ref : TypeRef} (h : ref.IsWritable) :
    (typeRef file).Writes ref.words fun read => read.unplaced = ref.unplaced := by
  obtain ⟨predefined, derived, span⟩ := ref
  cases predefined with
  | some name =>
    cases derived with
    | some other => exact h.elim
    | none =>
      refine ((writes_dottedName (isDottedName_of_mem_primitiveTypes h)).mono ?_).via
      intro dotted hname
      rw [DottedName.typeRef, hname, if_pos (show name ∈ primitiveTypes from h)]
      rfl
  | none =>
    cases derived with
    | none => exact h.elim
    | some name =>
      refine ((writes_dottedName h.1).mono ?_).via
      intro dotted hname
      -- a declared type with the name of a basic type would be read as the basic type
      rw [DottedName.typeRef, hname, if_neg (show name ∉ primitiveTypes from h.2)]
      rfl

/-- A typed name is read as it is written, apart from its place. -/
theorem writes_typedName {typed : TypedName} (h : typed.IsWritable) :
    (typedName file).Writes typed.words fun read => read.unplaced = typed.unplaced := by
  refine (((writes_typeRef file h.2).pair
    ((Writes.flag (by decide) typed.isArray).pair (Writes.name h.1))).mono ?_).via
  rintro ⟨type, isArray, name⟩ ⟨htype, hflag, hname⟩
  simp only at htype hflag hname
  simp only [TypedName.unplaced, htype, hflag, hname]

/-- Typed names between braces are read as they are written. -/
theorem writes_typedNames {all : List TypedName} (h : ∀ typed ∈ all, typed.IsWritable) :
    (braced (many (typedName file))).Writes (bracedWords (all.flatMap TypedName.words))
      fun read => read.map TypedName.unplaced = all.map TypedName.unplaced :=
  (Writes.many fun typed htyped => writes_typedName file (h typed htyped)).braced

/-- What a declaration extends is read as it is written. -/
theorem writes_extendsClause {name : String} (h : IsDottedName name) :
    extendsClause.Writes (extendsWords name) fun dotted => dotted.text = name :=
  (Writes.mark (by decide)).skipThen (writes_dottedName h)

/-- The declared type that is extended is read as it is written, apart from its place. -/
theorem writes_declaredRef {ref : TypeRef} (h : ref.IsDeclared) :
    extendsClause.Writes (extendsWords ref.target) fun dotted =>
      (dotted.declaredRef file).unplaced = ref.unplaced := by
  obtain ⟨predefined, derived, span⟩ := ref
  cases predefined with
  | some name => exact h.elim
  | none =>
    cases derived with
    | none => exact h.elim
    | some name =>
      refine (writes_extendsClause h).mono fun dotted hname => ?_
      rw [DottedName.declaredRef, hname]
      rfl

/-- What a type declaration extends is read as it is written, apart from its place. -/
theorem writes_base {base : Option TypeRef} (h : ∀ ref ∈ base, ref.IsDeclared) :
    (optional extendsClause).Writes (base.elim [] (extendsWords ·.target)) fun read =>
      (read.map (·.declaredRef file)).map TypeRef.unplaced = base.map TypeRef.unplaced := by
  simp only [Option.map_map]
  exact Writes.optional fun ref href => writes_declaredRef file (h ref href)

/-- What a struct extends is read as it is written, apart from its place. -/
theorem writes_structBase {base : Option TypeRef} (h : ∀ ref ∈ base, ref.IsDeclared) :
    (oneOf [via some extendsClause, via (fun _ => none) (mark "polymorphic"), done none]).Writes
      (base.elim [] (extendsWords ·.target)) fun read =>
        (read.map (·.declaredRef file)).map TypeRef.unplaced = base.map TypeRef.unplaced := by
  cases base with
  | none =>
    have hnone : (done (none : Option DottedName)).Writes [] fun read =>
        (read.map (·.declaredRef file)).map TypeRef.unplaced = none := Writes.done rfl
    exact hnone.oneOf (by simp)
  | some ref =>
    have hsome : (via some extendsClause).Writes (extendsWords ref.target) fun read =>
        (read.map (·.declaredRef file)).map TypeRef.unplaced = some ref.unplaced := by
      refine ((writes_declaredRef file (h ref rfl)).mono fun dotted hdotted => ?_).via
      rw [Option.map_some, Option.map_some, hdotted]
    exact hsome.oneOf (by simp)

/-- A number is read as it is written. -/
theorem writes_number (n : Int) :
    (token .number).Writes [(.number, numeral n)] fun token => token.lexeme = numeral n :=
  Writes.token (.number, numeral n) (isNumeral_numeral n) fun _ hword => congrArg Prod.snd hword

/-- A version is read as its numbers. -/
theorem writes_version {version : Int × Int} (h : IsShort version.1 ∧ IsShort version.2) :
    (Source.version file).Writes (versionWords version) fun read =>
      read.numbers = .ok version := by
  refine (((Writes.mark (by decide)).pair ((Writes.mark (by decide)).pair
    ((Writes.mark (by decide)).pair ((writes_number version.1).pair ((Writes.mark (by decide)).pair
      ((writes_number version.2).pair (Writes.mark (by decide)))))))).mono ?_).via
  rintro ⟨first, _, _, major, _, minor, last⟩ ⟨-, -, -, hmajor, -, hminor, -⟩
  simp only at hmajor hminor
  simp only [VersionText.numbers, hmajor, hminor, decimal?_numeral h.1, decimal?_numeral h.2]

/-- A quoted text is read as the text. -/
theorem writes_quoted {text : String} (h : IsOneLine text) :
    (token .string).Writes [quotedWord text] fun token =>
      String.ofList (quotedText token.lexeme) = text := by
  refine Writes.token (quotedWord text) ⟨text.toList, h, rfl⟩ fun token hword => ?_
  rw [show token.lexeme = quoted text.toList from congrArg Prod.snd hword, quotedText_quoted,
    String.ofList_toList]

/-! ## Type declarations -/

/-- An enumerator is read as it is written, apart from its place. -/
theorem writes_enumerator {enumerator : Enumerator} (h : enumerator.IsWritable) :
    (Source.enumerator file).Writes enumerator.words fun read =>
      read.unplaced = enumerator.unplaced := by
  have hvalue : (optional (skipThen (mark "=") enumValue)).Writes
      (enumerator.value.elim [] fun value => [markWord "=", quotedWord value])
      fun read => read.map id = enumerator.value.map id := by
    refine Writes.optional fun value hmem => (Writes.mark (by decide)).skipThen ?_
    exact ((writes_quoted (h.2 value hmem)).via.left _).right _
  -- no comma is written behind an enumerator
  have hcomma : (flag ",").Writes [] (· = false) := Writes.flag (by decide) false
  rw [Enumerator.words, ← List.append_nil (enumerator.value.elim _ _)]
  refine (((Writes.name h.1).pair (hvalue.pair hcomma)).mono ?_).via
  rintro ⟨name, value, comma⟩ ⟨hname, hvalue, -⟩
  simp only [Option.map_id_fun, id_eq] at hname hvalue
  simp only [Enumerator.unplaced, hname, hvalue]

section Declarations

variable {name : String} (hname : IsIdentifier name) (span : Span) (identity : Option Nat)
include hname

/-- An enumeration is read as it is written, apart from places. -/
theorem writes_enumeration {enumerators : List Enumerator} {base : Option TypeRef}
    (h : (TypeBody.enumeration enumerators base).IsWritable) :
    (enumeration file).Writes (TypeDecl.mk name (.enumeration enumerators base) span identity).words
      fun read => read.unplaced =
        (TypeDecl.mk name (.enumeration enumerators base) span identity).unplaced := by
  have hall : (braced (many (Source.enumerator file))).Writes
      (bracedWords (enumerators.flatMap Enumerator.words)) fun read =>
        read.map Enumerator.unplaced = enumerators.map Enumerator.unplaced :=
    (Writes.many fun enumerator hmem => writes_enumerator file (h.1 enumerator hmem)).braced
  refine (((Writes.mark (by decide)).skipThen
    ((Writes.name hname).pair ((writes_base file h.2).pair hall))).mono ?_).via
  rintro ⟨read, base, enumerators⟩ ⟨hread, hbase, henumerators⟩
  simp only at hread hbase henumerators
  simp only [TypeDecl.unplaced, TypeBody.unplaced, hread, hbase, henumerators]

/-- A map is read as it is written, apart from places. -/
theorem writes_mapType {key value : TypeRef} (h : (TypeBody.map key value).IsWritable) :
    (mapType file).Writes (TypeDecl.mk name (.map key value) span identity).words
      fun read => read.unplaced = (TypeDecl.mk name (.map key value) span identity).unplaced := by
  refine (((Writes.mark (by decide)).skipThen
    ((Writes.name hname).pair ((writes_typeRef file h.1).pair
      ((Writes.mark (by decide)).skipThen (writes_typeRef file h.2))).braced)).mono ?_).via
  rintro ⟨read, key, value⟩ ⟨hread, hkey, hvalue⟩
  simp only at hread hkey hvalue
  simp only [TypeDecl.unplaced, TypeBody.unplaced, hread, hkey, hvalue]

/-- Another name for a type is read as it is written, apart from places. -/
theorem writes_aliasType {target : TypeRef} (h : (TypeBody.synonym target).IsWritable) :
    (aliasType file).Writes (TypeDecl.mk name (.synonym target) span identity).words
      fun read => read.unplaced = (TypeDecl.mk name (.synonym target) span identity).unplaced := by
  refine (((Writes.mark (by decide)).skipThen ((Writes.name hname).pair
    ((Writes.mark (by decide)).skipThen (writes_typeRef file h)))).mono ?_).via
  rintro ⟨read, target⟩ ⟨hread, htarget⟩
  simp only at hread htarget
  simp only [TypeDecl.unplaced, TypeBody.unplaced, hread, htarget]

/-- A struct is read as it is written, apart from places. -/
theorem writes_structType {fields : List TypedName} {base : Option TypeRef}
    (h : (TypeBody.struct fields base).IsWritable) :
    (structType file).Writes (TypeDecl.mk name (.struct fields base) span identity).words
      fun read => read.unplaced =
        (TypeDecl.mk name (.struct fields base) span identity).unplaced := by
  refine (((Writes.mark (by decide)).skipThen ((Writes.name hname).pair
    ((writes_structBase file h.2).pair (writes_typedNames file h.1)))).mono ?_).via
  rintro ⟨read, base, fields⟩ ⟨hread, hbase, hfields⟩
  simp only at hread hbase hfields
  simp only [TypeDecl.unplaced, TypeBody.unplaced, hread, hbase, hfields]

/-- A union is read as it is written, apart from places. -/
theorem writes_unionType {fields : List TypedName} {base : Option TypeRef}
    (h : (TypeBody.union fields base).IsWritable) :
    (unionType file).Writes (TypeDecl.mk name (.union fields base) span identity).words
      fun read => read.unplaced =
        (TypeDecl.mk name (.union fields base) span identity).unplaced := by
  refine (((Writes.mark (by decide)).skipThen ((Writes.name hname).pair
    ((writes_base file h.2).pair (writes_typedNames file h.1)))).mono ?_).via
  rintro ⟨read, base, fields⟩ ⟨hread, hbase, hfields⟩
  simp only at hread hbase hfields
  simp only [TypeDecl.unplaced, TypeBody.unplaced, hread, hbase, hfields]

/-- An array is read as it is written, apart from places. -/
theorem writes_arrayType {element : TypeRef} (h : (TypeBody.array element).IsWritable) :
    (arrayType file).Writes (TypeDecl.mk name (.array element) span identity).words
      fun read => read.unplaced = (TypeDecl.mk name (.array element) span identity).unplaced := by
  refine (((Writes.mark (by decide)).skipThen ((Writes.name hname).pair
    ((Writes.mark (by decide)).skipThen (writes_typeRef file h)))).mono ?_).via
  rintro ⟨read, element⟩ ⟨hread, helement⟩
  simp only at hread helement
  simp only [TypeDecl.unplaced, TypeBody.unplaced, hread, helement]

end Declarations

/-- A type declaration is read as it is written, apart from places. -/
theorem writes_typeDecl {decl : TypeDecl} (h : decl.IsWritable) :
    (typeDecl file).Writes decl.words fun read => read.unplaced = decl.unplaced := by
  obtain ⟨name, body, span, identity⟩ := decl
  obtain ⟨hname, hbody⟩ := h
  have hpublic : (flag "public").Writes [] (· = false) := Writes.flag (by decide) false
  refine hpublic.skipThen ?_
  cases body with
  | enumeration enumerators base =>
    exact (writes_enumeration file hname span identity hbody).oneOf (by simp)
  | map key value => exact (writes_mapType file hname span identity hbody).oneOf (by simp)
  | synonym target => exact (writes_aliasType file hname span identity hbody).oneOf (by simp)
  | struct fields base => exact (writes_structType file hname span identity hbody).oneOf (by simp)
  | union fields base => exact (writes_unionType file hname span identity hbody).oneOf (by simp)
  | array element => exact (writes_arrayType file hname span identity hbody).oneOf (by simp)

/-! ## Members of interfaces -/

/-- An attribute is read as it is written, apart from its place. -/
theorem writes_attributeDecl {typed : TypedName} (h : typed.IsWritable) :
    (attributeDecl file).Writes (Member.attribute typed).words fun read =>
      read.unplaced = typed.unplaced := by
  have hflags : (many (oneOf [mark "readonly", mark "noSubscriptions", mark "noRead"])).Writes []
      fun _ => True :=
    Writes.noItems _
  have hwords : (Member.attribute typed).words = [markWord "attribute"] ++ (typed.words ++ []) := by
    rw [List.append_nil]
    rfl
  rw [hwords]
  exact (Writes.mark (by decide)).skipThen ((writes_typedName file h).thenSkip hflags)

/-- A list of arguments is read as it is written, apart from places. -/
theorem writes_arguments {keyword : String} (hkeyword : keyword ∈ keywords ++ marks)
    {all : List TypedName} (h : ∀ typed ∈ all, typed.IsWritable) :
    (arguments file keyword).Writes (argumentsWords keyword all) fun read =>
      read.map TypedName.unplaced = all.map TypedName.unplaced :=
  ((Writes.mark hkeyword).skipThen (writes_typedNames file h)).left _

/-- A method is read as it is written, apart from places. -/
theorem writes_methodDecl {method : Method} (h : method.IsWritable) :
    (methodDecl file).Writes method.words fun read => read.unplaced = method.unplaced := by
  obtain ⟨hname, hin, hout⟩ := h
  have herror : (optional (errorClause file)).Writes [] fun _ => True :=
    Writes.absent trivial
  have hbody := ((writes_arguments file (show "in" ∈ keywords ++ marks by decide) hin).pair
    ((writes_arguments file (show "out" ∈ keywords ++ marks by decide) hout).pair herror)).braced
  rw [List.append_nil] at hbody
  refine (((Writes.mark (by decide)).skipThen ((Writes.name hname).pair
    ((Writes.flag (by decide) method.fireAndForget).pair hbody))).mono ?_).via
  rintro ⟨read, fireAndForget, inArgs, outArgs, _⟩ ⟨hread, hflag, hinArgs, houtArgs, -⟩
  simp only at hread hflag hinArgs houtArgs
  simp only [Method.unplaced, hread, hflag, hinArgs, houtArgs]

/-- A broadcast is read as it is written, apart from places. -/
theorem writes_broadcastDecl {broadcast : Broadcast} (h : broadcast.IsWritable) :
    (broadcastDecl file).Writes broadcast.words fun read =>
      read.unplaced = broadcast.unplaced := by
  have hselective : (flag "selective").Writes [] (· = false) := Writes.flag (by decide) false
  refine (((Writes.mark (by decide)).skipThen ((Writes.name h.1).pair (hselective.pair
    (writes_arguments file (by decide) h.2).braced))).mono ?_).via
  rintro ⟨read, selective, outArgs⟩ ⟨hread, -, hout⟩
  simp only at hread hout
  simp only [Broadcast.unplaced, hread, hout]

/-- A member is read as it is written, apart from places. -/
theorem writes_member {written : Member} (h : written.IsWritable) :
    (member file).Writes written.words fun read => read.unplaced = written.unplaced := by
  cases written with
  | «attribute» typed =>
    refine ((writes_attributeDecl file h).mono fun read hread => ?_).via.oneOf
      (List.mem_cons_self ..)
    exact congrArg Member.attribute hread
  | method method =>
    have hmethod : (via Member.method (methodDecl file)).Writes method.words fun read =>
        read.unplaced = Member.method method.unplaced :=
      ((writes_methodDecl file h).mono fun read hread => congrArg Member.method hread).via
    exact hmethod.oneOf (by simp)
  | broadcast broadcast =>
    have hbroadcast : (via Member.broadcast (broadcastDecl file)).Writes broadcast.words
        fun read => read.unplaced = Member.broadcast broadcast.unplaced :=
      ((writes_broadcastDecl file h).mono fun read hread => congrArg Member.broadcast hread).via
    exact hbroadcast.oneOf (by simp)
  | type decl =>
    have hdecl : (via Member.type (typeDecl file)).Writes decl.words
        fun read => read.unplaced = Member.type decl.unplaced :=
      ((writes_typeDecl file h).mono fun read hread => congrArg Member.type hread).via
    exact hdecl.oneOf (by simp)

/-! ## Elements -/

/-- Versions that are read one by one are read together. -/
theorem versionNumbers_eq_ok {read : Option VersionText} {version : Option (Int × Int)}
    (h : read.map VersionText.numbers = version.map .ok) : versionNumbers read = .ok version := by
  cases read with
  | none =>
    cases version with
    | none => rfl
    | some _ => simp at h
  | some text =>
    cases version with
    | none => simp at h
    | some numbers =>
      have htext : text.numbers = .ok numbers := by simpa using h
      rw [versionNumbers, htext]
      rfl

/-- The version of an element is read as its numbers. -/
theorem writes_elementVersion {version : Option (Int × Int)}
    (h : ∀ numbers ∈ version, IsShort numbers.1 ∧ IsShort numbers.2) :
    (optional (Source.version file)).Writes (version.elim [] versionWords) fun read =>
      versionNumbers read = .ok version :=
  (Writes.optional fun numbers hmem => writes_version file (h numbers hmem)).mono
    fun _ hread => versionNumbers_eq_ok hread

/-- The name of a type collection is read as it is written; an anonymous one has the empty name. -/
theorem writes_elementName {name : String} (h : name = "" ∨ IsIdentifier name) :
    (optional Phrase.name).Writes (if name.isEmpty then [] else [nameWord name]) fun read =>
      (read.map Token.text).getD "" = name := by
  split
  · next hempty => exact Writes.absent (String.isEmpty_iff.mp hempty).symm
  · next hempty =>
    have hname : IsIdentifier name :=
      h.resolve_left fun hnil => hempty (String.isEmpty_iff.mpr hnil)
    exact (Writes.name hname).present

/-- A type collection is read as it is written, apart from places. -/
theorem writes_typeCollection {collection : TypeCollection} (h : collection.IsWritable) :
    (typeCollection file).Writes collection.words fun read =>
      read.element.map Element.unplaced = .ok (Element.collection collection).unplaced := by
  obtain ⟨hname, htypes, hversion⟩ := h
  have htypes := Writes.many fun decl hmem => writes_typeDecl file (htypes decl hmem)
  rw [TypeCollection.words, bracedWords, List.append_assoc]
  refine (((Writes.mark (by decide)).pair ((writes_elementName hname).pair
    ((Writes.mark (by decide)).pair ((writes_elementVersion file hversion).pair
      (htypes.pair (Writes.mark (by decide))))))).mono ?_).via
  rintro ⟨first, name, _, version, types, last⟩ ⟨-, hname, -, hversion, htypes, -⟩
  simp only at hname hversion htypes
  simp only [Definition.element, hversion]
  show Except.ok _ = Except.ok _
  simp only [Element.unplaced, TypeCollection.unplaced, hname, htypes]

/-- The names of managed interfaces are read as they are written. -/
theorem writes_managed {managed : List String} (h : ∀ name ∈ managed, IsDottedName name) :
    (optional managesClause).Writes (managesWords managed) fun read =>
      (read.getD []).map DottedName.text = managed := by
  cases managed with
  | nil => exact Writes.absent rfl
  | cons first others =>
    rw [List.forall_mem_cons] at h
    have hothers : (many (skipThen (mark ",") dottedName)).Writes
        (others.flatMap fun name => markWord "," :: dottedWords name)
        fun read => read.map DottedName.text = others.map id :=
      Writes.many fun name hmem =>
        (Writes.mark (by decide)).skipThen (writes_dottedName (h.2 name hmem))
    refine (((Writes.mark (by decide)).skipThen
      ((writes_dottedName h.1).pair hothers)).mono ?_).via.present
    rintro ⟨head, tail⟩ ⟨hhead, htail⟩
    simp only [List.map_id] at hhead htail
    rw [Option.getD_some, List.map_cons, hhead, htail]

/-- The members of one kind are the same if all members are, apart from places. -/
theorem map_filterMap_eq_of_unplaced {κ : Type} {kind? : Member → Option κ} {strip : κ → κ}
    (hkind : ∀ m : Member, kind? m.unplaced = (kind? m).map strip) {read written : List Member}
    (h : read.map Member.unplaced = written.map Member.unplaced) :
    (read.filterMap kind?).map strip = (written.filterMap kind?).map strip := by
  -- it makes no difference whether the places are dropped before or after the selection
  have hstrip : ∀ all : List Member,
      (all.filterMap kind?).map strip = (all.map Member.unplaced).filterMap kind? := by
    intro all
    rw [List.map_filterMap, List.filterMap_map]
    exact List.filterMap_congr fun m _ => (hkind m).symm
  rw [hstrip, hstrip, h]

/-- The type declaration of a member without places. -/
theorem type?_unplaced (member : Member) :
    member.unplaced.type? = member.type?.map TypeDecl.unplaced := by
  cases member <;> rfl

/-- The attribute of a member without places. -/
theorem attribute?_unplaced (member : Member) :
    member.unplaced.attribute? = member.attribute?.map TypedName.unplaced := by
  cases member <;> rfl

/-- The method of a member without places. -/
theorem method?_unplaced (member : Member) :
    member.unplaced.method? = member.method?.map Method.unplaced := by
  cases member <;> rfl

/-- The broadcast of a member without places. -/
theorem broadcast?_unplaced (member : Member) :
    member.unplaced.broadcast? = member.broadcast?.map Broadcast.unplaced := by
  cases member <;> rfl

section Members

variable (interface : Interface)

/-- The type declarations among the members. -/
theorem filterMap_type?_members : interface.members.filterMap Member.type? = interface.types := by
  simp [Interface.members, List.filterMap_append, List.filterMap_map, Function.comp_def,
    Member.type?]

/-- The attributes among the members. -/
theorem filterMap_attribute?_members :
    interface.members.filterMap Member.attribute? = interface.attributes := by
  simp [Interface.members, List.filterMap_append, List.filterMap_map, Function.comp_def,
    Member.attribute?]

/-- The methods among the members. -/
theorem filterMap_method?_members :
    interface.members.filterMap Member.method? = interface.methods := by
  simp [Interface.members, List.filterMap_append, List.filterMap_map, Function.comp_def,
    Member.method?]

/-- The broadcasts among the members. -/
theorem filterMap_broadcast?_members :
    interface.members.filterMap Member.broadcast? = interface.broadcasts := by
  simp [Interface.members, List.filterMap_append, List.filterMap_map, Function.comp_def,
    Member.broadcast?]

end Members

/-- All members of an interface that can be written can be written. -/
theorem isWritable_of_mem_members {interface : Interface} (h : interface.IsWritable)
    {member : Member} (hmem : member ∈ interface.members) : member.IsWritable := by
  obtain ⟨-, ⟨htypes, -⟩, hmethods, hattributes, hbroadcasts, -, -⟩ := h
  simp only [Interface.members, List.mem_append, List.mem_map] at hmem
  rcases hmem with ((⟨decl, hdecl, rfl⟩ | ⟨typed, htyped, rfl⟩) | ⟨method, hmethod, rfl⟩) |
    ⟨broadcast, hbroadcast, rfl⟩
  · exact htypes decl hdecl
  · exact hattributes typed htyped
  · exact hmethods method hmethod
  · exact hbroadcasts broadcast hbroadcast

/-- An interface is read as it is written, apart from places. -/
theorem writes_interface {interface : Interface} (h : interface.IsWritable) :
    (Source.interface file).Writes interface.words fun read =>
      read.element.map Element.unplaced = .ok (Element.interface interface).unplaced := by
  have hmembers := Writes.many fun member hmem =>
    writes_member file (isWritable_of_mem_members h hmem)
  obtain ⟨hname, ⟨-, hversion⟩, -, -, -, hbase, hmanaged⟩ := h
  have hbase : (optional extendsClause).Writes (interface.base.elim [] extendsWords) fun read =>
      read.map DottedName.text = interface.base.map id :=
    Writes.optional fun name hmem => writes_extendsClause (hbase name hmem)
  refine (((Writes.mark (by decide)).skipThen ((Writes.name hname).pair (hbase.pair
    ((writes_managed hmanaged).pair
      ((writes_elementVersion file hversion).pair hmembers).braced)))).mono ?_).via
  rintro ⟨name, base, managed, version, members⟩ ⟨hname, hbase, hmanaged, hversion, hmembers⟩
  simp only [Option.map_id_fun, id_eq] at hname hbase hmanaged hversion hmembers
  have htypes := map_filterMap_eq_of_unplaced type?_unplaced hmembers
  have hattributes := map_filterMap_eq_of_unplaced attribute?_unplaced hmembers
  have hmethods := map_filterMap_eq_of_unplaced method?_unplaced hmembers
  have hbroadcasts := map_filterMap_eq_of_unplaced broadcast?_unplaced hmembers
  rw [filterMap_type?_members] at htypes
  rw [filterMap_attribute?_members] at hattributes
  rw [filterMap_method?_members] at hmethods
  rw [filterMap_broadcast?_members] at hbroadcasts
  simp only [Definition.element, hversion]
  show Except.ok _ = Except.ok _
  simp only [Element.unplaced, Interface.unplaced, TypeCollection.unplaced, hname, hbase,
    hmanaged, htypes, hattributes, hmethods, hbroadcasts]

/-! ## Imports -/

/-- A namespace is its name with a final `.*` or without. -/
theorem namespaceName_append (ns : String) :
    (if Import.isWhole ns then Import.namespaceName ns ++ ".*" else Import.namespaceName ns) =
      ns := by
  unfold Import.namespaceName
  split
  · next hwhole =>
    have hsuffix : ['.', '*'] <:+ ns.toList := List.isSuffixOf_iff_suffix.mp hwhole
    have htext : ns.toList.take (ns.toList.length - 2) ++ ['.', '*'] = ns.toList :=
      List.suffix_iff_eq_append.mp hsuffix
    rw [← String.toList_inj, String.toList_append, String.toList_ofList]
    exact htext
  · rfl

/-- What is imported from a file is read as it is written. -/
theorem writes_namespace {ns : String} (h : IsDottedName (Import.namespaceName ns)) :
    (via (fun (name, all) => some (if all then name.text ++ ".*" else name.text))
      (pair dottedName (flag ".*"))).Writes
        (dottedWords (Import.namespaceName ns) ++
          if Import.isWhole ns then [markWord ".*"] else [])
        fun read => read = some ns := by
  refine (((writes_dottedName h).pair
    (Writes.flag (by decide) (Import.isWhole ns))).mono ?_).via
  rintro ⟨name, all⟩ ⟨hname, hall⟩
  simp only at hname hall
  simp only [hname, hall, namespaceName_append]

/-- An import is read as it is written, apart from its place. -/
theorem writes_importClause {imported : Import} (h : imported.IsWritable) :
    (importClause file).Writes imported.words fun read => read.unplaced = imported.unplaced := by
  obtain ⟨uri, ns, span⟩ := imported
  obtain ⟨huri, hns⟩ := h
  cases ns with
  | none =>
    have hmodel : (via (fun _ => (none : Option String)) (mark "model")).Writes
        [markWord "model"] fun read => read = none :=
      ((Writes.mark (by decide)).mono fun _ _ => rfl).via
    refine (((Writes.mark (by decide)).pair
      ((hmodel.pair (writes_quoted huri)).left _)).mono ?_).via
    rintro ⟨first, read, text⟩ ⟨-, hread, htext⟩
    simp only at hread htext
    simp only [Import.unplaced, hread, htext]
  | some ns =>
    have hfrom := (Writes.mark (show "from" ∈ keywords ++ marks by decide)).skipThen
      (writes_quoted huri)
    refine (((Writes.mark (by decide)).pair
      (((writes_namespace (hns ns rfl)).pair hfrom).right _)).mono ?_).via
    rintro ⟨first, read, text⟩ ⟨-, hread, htext⟩
    simp only at hread htext
    simp only [Import.unplaced, hread, htext]

end FrancaLint.Source
