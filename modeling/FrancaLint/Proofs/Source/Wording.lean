import FrancaLint.Proofs.Source.Languages
import FrancaLint.Proofs.Source.Parts

/-! # Words settle values

What is read from a sentence depends on its words alone, apart from the spans: wherever the words
are placed, they are a sentence again, with a value that is the same.

* `Phrase.Settles`, with one lemma for every kind of phrase.
* One lemma for every rule of the grammar, up to `settles_draft` for whole files. -/

namespace FrancaLint.Source

namespace Phrase

variable {α β κ : Type}

/-- The words of a sentence **settle** its value up to sameness: the same words are a sentence with
a value that is the same. -/
def Settles (phrase : Phrase α) (same : α → α → Prop) : Prop :=
  ∀ ⦃ts us : List Token⦄ ⦃a : α⦄, Yields phrase ts a → us.map Token.word = ts.map Token.word →
    ∃ b, Yields phrase us b ∧ same b a

namespace Settles

variable {phrase : Phrase α} {same : α → α → Prop}

/-! ## Kinds of phrases -/

/-- Values that are the same are the same in all respects that follow. -/
theorem mono {same' : α → α → Prop} (h : phrase.Settles same)
    (hsame : ∀ a b, same b a → same' b a) : phrase.Settles same' := by
  intro ts us a hyields hwords
  obtain ⟨b, hb, hvalue⟩ := h hyields hwords
  exact ⟨b, hb, hsame a b hvalue⟩

/-- The words of a sentence are always a sentence. -/
theorem any (phrase : Phrase α) : phrase.Settles fun _ _ => True := by
  intro ts us a hyields hwords
  have hterminals : us.map Token.terminal = ts.map Token.terminal := by
    have hfirst := congrArg (List.map Prod.fst) hwords
    rwa [List.map_map, List.map_map] at hfirst
  obtain ⟨b, hb⟩ := exists_yields_of_map_terminal hyields hterminals
  exact ⟨b, hb, trivial⟩

/-- A token has the characters of its word. -/
theorem token (terminal : Terminal) :
    (Phrase.token terminal).Settles fun b a => b.lexeme = a.lexeme := by
  intro ts us a hyields hwords
  obtain ⟨rfl, hterminal⟩ := yields_token_iff.mp hyields
  rw [List.map_singleton, List.map_eq_singleton_iff] at hwords
  obtain ⟨b, rfl, hword⟩ := hwords
  have hsame : b.terminal = a.terminal := congrArg Prod.fst hword
  exact ⟨b, .token b (hsame.trans hterminal), congrArg Prod.snd hword⟩

/-- Nothing is read as the same value. -/
theorem done {value : α} (h : same value value) : (Phrase.done value).Settles same := by
  intro ts us a hyields hwords
  obtain ⟨rfl, rfl⟩ := yields_done_iff.mp hyields
  obtain rfl := List.map_eq_nil_iff.mp hwords
  exact ⟨_, .done _, h⟩

/-- The parts of a pair are settled by their words. -/
theorem pair {second : Phrase β} {same' : β → β → Prop} (h : phrase.Settles same)
    (h' : second.Settles same') :
    (Phrase.pair phrase second).Settles fun b a => same b.1 a.1 ∧ same' b.2 a.2 := by
  intro ts us a hyields hwords
  obtain ⟨ts₁, ts₂, rfl, h₁, h₂⟩ := yields_pair_iff.mp hyields
  rw [List.map_append] at hwords
  obtain ⟨us₁, us₂, rfl, hus₁, hus₂⟩ := List.map_eq_append_iff.mp hwords
  obtain ⟨b₁, hb₁, hsame₁⟩ := h h₁ hus₁
  obtain ⟨b₂, hb₂, hsame₂⟩ := h' h₂ hus₂
  exact ⟨(b₁, b₂), .pair hb₁ hb₂, hsame₁, hsame₂⟩

/-- A choice is settled if both of its sides are. -/
theorem either {right : Phrase α} (h : phrase.Settles same) (h' : right.Settles same) :
    (Phrase.either phrase right).Settles same := by
  intro ts us a hyields hwords
  rcases yields_either_iff.mp hyields with hleft | hright
  · obtain ⟨b, hb, hsame⟩ := h hleft hwords
    exact ⟨b, .left hb, hsame⟩
  · obtain ⟨b, hb, hsame⟩ := h' hright hwords
    exact ⟨b, .right hb, hsame⟩

/-- The items of a repetition are settled by their words. -/
theorem many {view : α → κ} (h : phrase.Settles fun b a => view b = view a) :
    (Phrase.many phrase).Settles fun bs as => bs.map view = as.map view := by
  -- on the items of the first sentence, which tell where to split the words of the second
  intro ts us as hyields hwords
  induction as generalizing ts us with
  | nil =>
    rw [yields_many_nil_iff.mp hyields, List.map_nil, List.map_eq_nil_iff] at hwords
    subst hwords
    exact ⟨[], .none, rfl⟩
  | cons a as ih =>
    obtain ⟨ts₁, ts₂, rfl, h₁, h₂⟩ := yields_many_cons_iff.mp hyields
    rw [List.map_append] at hwords
    obtain ⟨us₁, us₂, rfl, hus₁, hus₂⟩ := List.map_eq_append_iff.mp hwords
    obtain ⟨b, hb, hfirst⟩ := h h₁ hus₁
    obtain ⟨bs, hbs, hrest⟩ := ih h₂ hus₂
    refine ⟨b :: bs, .more hb hbs, ?_⟩
    show (b :: bs).map view = (a :: as).map view
    rw [List.map_cons, List.map_cons, hfirst, hrest]

/-- A value that is turned into another one is settled with it. -/
theorem via {f : α → β} {same : β → β → Prop} (h : phrase.Settles fun b a => same (f b) (f a)) :
    (Phrase.via f phrase).Settles same := by
  intro ts us _ hyields hwords
  obtain ⟨a, ha, rfl⟩ := yields_via_iff.mp hyields
  obtain ⟨b, hb, hsame⟩ := h ha hwords
  exact ⟨f b, .via hb, hsame⟩

/-! ## Derived phrases -/

/-- Whatever stands in front does not count. -/
theorem skipThen (first : Phrase β) (h : phrase.Settles same) :
    (Phrase.skipThen first phrase).Settles same :=
  (((any first).pair h).mono fun _ _ hsame => hsame.2).via

/-- Whatever stands behind does not count. -/
theorem thenSkip (h : phrase.Settles same) (second : Phrase β) :
    (Phrase.thenSkip phrase second).Settles same :=
  ((h.pair (any second)).mono fun _ _ hsame => hsame.1).via

/-- Braces do not count. -/
theorem braced (h : phrase.Settles same) : (Phrase.braced phrase).Settles same :=
  skipThen _ (h.thenSkip _)

/-- One of several phrases is settled if all of them are. -/
theorem oneOf {phrases : List (Phrase α)} (h : ∀ phrase ∈ phrases, phrase.Settles same) :
    (Phrase.oneOf phrases).Settles same := by
  induction phrases with
  | nil =>
    intro ts us a hyields
    exact absurd hyields not_yields_never
  | cons first phrases ih =>
    rw [List.forall_mem_cons] at h
    exact h.1.either (ih h.2)

/-- A part that may be left out is settled by its words. -/
theorem optional {view : α → κ} (h : phrase.Settles fun b a => view b = view a) :
    (Phrase.optional phrase).Settles fun b a => b.map view = a.map view := by
  have hsome : (Phrase.via some phrase).Settles fun b a => b.map view = a.map view := by
    refine (h.mono fun a b hsame => ?_).via
    exact congrArg some hsame
  exact hsome.either (done rfl)

/-- A flag is settled by its word. -/
theorem flag (spelling : String) : (Phrase.flag spelling).Settles (· = ·) := by
  have htrue : (Phrase.via (fun _ => true) (Phrase.mark spelling)).Settles (· = ·) :=
    ((any _).mono fun _ _ _ => rfl).via
  exact htrue.either (done rfl)

/-- A name is settled by its word. -/
theorem name : Phrase.name.Settles fun b a => b.text = a.text :=
  (token .name).mono fun _ _ hlexeme => congrArg String.ofList hlexeme

end Settles

end Phrase

open Phrase

/-! ## Names and types -/

/-- A dotted name. -/
theorem settles_dottedName : dottedName.Settles fun b a => b.text = a.text := by
  have htail : (many (skipThen (mark ".") name)).Settles fun b a =>
      b.map Token.text = a.map Token.text :=
    (Settles.name.skipThen _).many
  refine ((Settles.name.pair htail).mono ?_).via
  rintro ⟨head, tail⟩ ⟨head', tail'⟩ ⟨hhead, htail⟩
  simp only at hhead htail
  rw [DottedName.text, DottedName.text, List.map_cons, List.map_cons, hhead, htail]

variable (file : String)

/-- A reference to a type. -/
theorem settles_typeRef : (typeRef file).Settles fun b a => b.unplaced = a.unplaced := by
  refine (settles_dottedName.mono fun a b hname => ?_).via
  -- the name alone decides whether the type is a basic one
  rw [DottedName.typeRef, DottedName.typeRef, hname]
  by_cases hprimitive : a.text ∈ primitiveTypes
  · rw [if_pos hprimitive, if_pos hprimitive]
    rfl
  · rw [if_neg hprimitive, if_neg hprimitive]
    rfl

/-- A type and the name that has it. -/
theorem settles_typedName : (typedName file).Settles fun b a => b.unplaced = a.unplaced := by
  refine (((settles_typeRef file).pair ((Settles.flag "[]").pair Settles.name)).mono ?_).via
  rintro ⟨type, isArray, name⟩ ⟨type', isArray', name'⟩ ⟨htype, hflag, hname⟩
  simp only at htype hflag hname
  simp only [TypedName.unplaced, htype, hflag, hname]

/-- Typed names between braces. -/
theorem settles_typedNames : (braced (many (typedName file))).Settles fun b a =>
    b.map TypedName.unplaced = a.map TypedName.unplaced :=
  (settles_typedName file).many.braced

/-- What a declaration extends. -/
theorem settles_extendsClause : extendsClause.Settles fun b a => b.text = a.text :=
  settles_dottedName.skipThen _

/-- The declared type that is extended. -/
theorem settles_declaredRef : extendsClause.Settles fun b a =>
    (b.declaredRef file).unplaced = (a.declaredRef file).unplaced := by
  refine settles_extendsClause.mono fun a b hname => ?_
  rw [DottedName.declaredRef, DottedName.declaredRef, hname]
  rfl

/-- What a type declaration may extend. -/
theorem settles_base : (optional extendsClause).Settles fun b a =>
    (b.map (·.declaredRef file)).map TypeRef.unplaced =
      (a.map (·.declaredRef file)).map TypeRef.unplaced := by
  simp only [Option.map_map]
  exact (settles_declaredRef file).optional

/-- What a struct may extend. -/
theorem settles_structBase :
    (oneOf [via some extendsClause, via (fun _ => none) (mark "polymorphic"), done none]).Settles
      fun b a => (b.map (·.declaredRef file)).map TypeRef.unplaced =
        (a.map (·.declaredRef file)).map TypeRef.unplaced := by
  refine Settles.oneOf ?_
  simp only [List.forall_mem_cons, List.not_mem_nil, false_imp_iff, implies_true, and_true]
  refine ⟨?_, ?_, Settles.done rfl⟩
  · refine ((settles_declaredRef file).mono fun a b hsame => ?_).via
    exact congrArg some hsame
  · refine ((Settles.any _).mono fun _ _ _ => ?_).via
    rfl

/-- The words of a version. -/
theorem settles_version : (version file).Settles fun b a =>
    b.major.lexeme = a.major.lexeme ∧ b.minor.lexeme = a.minor.lexeme := by
  -- the keywords and the braces give nothing but the span
  refine (((Settles.any _).pair ((Settles.any _).pair ((Settles.any _).pair
    ((Settles.token .number).pair ((Settles.any _).pair
      ((Settles.token .number).pair (Settles.any _))))))).mono ?_).via
  rintro a b ⟨-, -, -, hmajor, -, hminor, -⟩
  exact ⟨hmajor, hminor⟩

/-! ## Type declarations -/

/-- The value of an enumerator. -/
theorem settles_enumValue : enumValue.Settles (· = ·) := by
  refine Settles.oneOf ?_
  simp only [List.forall_mem_cons, List.not_mem_nil, false_imp_iff, implies_true, and_true]
  refine ⟨?_, ?_, settles_dottedName.via⟩
  · exact ((Settles.token _).mono fun _ _ hlexeme => congrArg String.ofList hlexeme).via
  · refine ((Settles.token _).mono fun a b hlexeme => ?_).via
    rw [hlexeme]

/-- An enumerator. -/
theorem settles_enumerator : (enumerator file).Settles fun b a => b.unplaced = a.unplaced := by
  have hvalue : (optional (skipThen (mark "=") enumValue)).Settles fun b a =>
      b.map id = a.map id :=
    (settles_enumValue.skipThen _).optional
  refine ((Settles.name.pair (hvalue.pair (Settles.any _))).mono ?_).via
  rintro ⟨name, value, _⟩ ⟨name', value', _⟩ ⟨hname, hvalue, -⟩
  simp only [Option.map_id_fun, id_eq] at hname hvalue
  simp only [Enumerator.unplaced, hname, hvalue]

/-- An enumeration. -/
theorem settles_enumeration : (enumeration file).Settles fun b a => b.unplaced = a.unplaced := by
  refine (((Settles.name.pair ((settles_base file).pair
    (settles_enumerator file).many.braced)).skipThen _).mono ?_).via
  rintro ⟨name, base, enumerators⟩ ⟨name', base', enumerators'⟩ ⟨hname, hbase, henumerators⟩
  simp only at hname hbase henumerators
  simp only [TypeDecl.unplaced, TypeBody.unplaced, hname, hbase, henumerators]

/-- A map. -/
theorem settles_mapType : (mapType file).Settles fun b a => b.unplaced = a.unplaced := by
  refine (((Settles.name.pair ((settles_typeRef file).pair
    ((settles_typeRef file).skipThen _)).braced).skipThen _).mono ?_).via
  rintro ⟨name, key, value⟩ ⟨name', key', value'⟩ ⟨hname, hkey, hvalue⟩
  simp only at hname hkey hvalue
  simp only [TypeDecl.unplaced, TypeBody.unplaced, hname, hkey, hvalue]

/-- Another name for a type. -/
theorem settles_aliasType : (aliasType file).Settles fun b a => b.unplaced = a.unplaced := by
  refine (((Settles.name.pair ((settles_typeRef file).skipThen _)).skipThen _).mono ?_).via
  rintro ⟨name, target⟩ ⟨name', target'⟩ ⟨hname, htarget⟩
  simp only at hname htarget
  simp only [TypeDecl.unplaced, TypeBody.unplaced, hname, htarget]

/-- A struct. -/
theorem settles_structType : (structType file).Settles fun b a => b.unplaced = a.unplaced := by
  refine (((Settles.name.pair ((settles_structBase file).pair
    (settles_typedNames file))).skipThen _).mono ?_).via
  rintro ⟨name, base, fields⟩ ⟨name', base', fields'⟩ ⟨hname, hbase, hfields⟩
  simp only at hname hbase hfields
  simp only [TypeDecl.unplaced, TypeBody.unplaced, hname, hbase, hfields]

/-- A union. -/
theorem settles_unionType : (unionType file).Settles fun b a => b.unplaced = a.unplaced := by
  refine (((Settles.name.pair ((settles_base file).pair
    (settles_typedNames file))).skipThen _).mono ?_).via
  rintro ⟨name, base, fields⟩ ⟨name', base', fields'⟩ ⟨hname, hbase, hfields⟩
  simp only at hname hbase hfields
  simp only [TypeDecl.unplaced, TypeBody.unplaced, hname, hbase, hfields]

/-- An array. -/
theorem settles_arrayType : (arrayType file).Settles fun b a => b.unplaced = a.unplaced := by
  refine (((Settles.name.pair ((settles_typeRef file).skipThen _)).skipThen _).mono ?_).via
  rintro ⟨name, element⟩ ⟨name', element'⟩ ⟨hname, helement⟩
  simp only at hname helement
  simp only [TypeDecl.unplaced, TypeBody.unplaced, hname, helement]

/-- A type declaration. -/
theorem settles_typeDecl : (typeDecl file).Settles fun b a => b.unplaced = a.unplaced := by
  refine (Settles.oneOf ?_).skipThen _
  simp only [List.forall_mem_cons, List.not_mem_nil, false_imp_iff, implies_true, and_true]
  exact ⟨settles_enumeration file, settles_mapType file, settles_aliasType file,
    settles_structType file, settles_unionType file, settles_arrayType file⟩

/-! ## Members of interfaces -/

/-- An attribute. -/
theorem settles_attributeDecl :
    (attributeDecl file).Settles fun b a => b.unplaced = a.unplaced :=
  ((settles_typedName file).thenSkip _).skipThen _

/-- A list of arguments. -/
theorem settles_arguments (keyword : String) : (arguments file keyword).Settles fun b a =>
    b.map TypedName.unplaced = a.map TypedName.unplaced :=
  ((settles_typedNames file).skipThen _).either (Settles.done rfl)

/-- A method. -/
theorem settles_methodDecl : (methodDecl file).Settles fun b a => b.unplaced = a.unplaced := by
  -- of the errors nothing is kept
  have hbody := ((settles_arguments file "in").pair ((settles_arguments file "out").pair
    (Settles.any (optional (errorClause file))))).braced
  refine (((Settles.name.pair ((Settles.flag "fireAndForget").pair hbody)).skipThen _).mono ?_).via
  rintro ⟨name, flag, inArgs, outArgs, _⟩ ⟨name', flag', inArgs', outArgs', _⟩
    ⟨hname, hflag, hin, hout, -⟩
  simp only at hname hflag hin hout
  simp only [Method.unplaced, hname, hflag, hin, hout]

/-- A broadcast. -/
theorem settles_broadcastDecl :
    (broadcastDecl file).Settles fun b a => b.unplaced = a.unplaced := by
  refine (((Settles.name.pair ((Settles.any _).pair
    (settles_arguments file "out").braced)).skipThen _).mono ?_).via
  rintro ⟨name, _, outArgs⟩ ⟨name', _, outArgs'⟩ ⟨hname, -, hout⟩
  simp only at hname hout
  simp only [Broadcast.unplaced, hname, hout]

/-- A member. -/
theorem settles_member : (member file).Settles fun b a => b.unplaced = a.unplaced := by
  refine Settles.oneOf ?_
  simp only [List.forall_mem_cons, List.not_mem_nil, false_imp_iff, implies_true, and_true]
  refine ⟨?_, ?_, ?_, ?_⟩
  · refine ((settles_attributeDecl file).mono fun a b hsame => ?_).via
    exact congrArg Member.attribute hsame
  · refine ((settles_methodDecl file).mono fun a b hsame => ?_).via
    exact congrArg Member.method hsame
  · refine ((settles_broadcastDecl file).mono fun a b hsame => ?_).via
    exact congrArg Member.broadcast hsame
  · refine ((settles_typeDecl file).mono fun a b hsame => ?_).via
    exact congrArg Member.type hsame

/-! ## Elements -/

/-- The element that a definition is read as, without places; none if its version is bad. -/
def Definition.reading (definition : Definition) : Option Element :=
  (definition.element.map Element.unplaced).toOption

/-- The numbers of a version, if it has any and they are numbers, come from its words. -/
theorem versionNumbers_toOption_congr {read read' : Option VersionText}
    (h : read.map (fun version => (version.major.lexeme, version.minor.lexeme)) =
      read'.map (fun version => (version.major.lexeme, version.minor.lexeme))) :
    (versionNumbers read).toOption = (versionNumbers read').toOption := by
  cases read with
  | none =>
    cases read' with
    | none => rfl
    | some version' => cases h
  | some version =>
    cases read' with
    | none => cases h
    | some version' =>
      obtain ⟨hmajor, hminor⟩ := Prod.mk.inj (Option.some.inj h)
      simp only [versionNumbers, VersionText.numbers, hmajor, hminor]
      cases decimal? version'.major.lexeme <;> cases decimal? version'.minor.lexeme <;> rfl

/-- The version of an element. -/
theorem settles_elementVersion : (optional (version file)).Settles fun b a =>
    (versionNumbers b).toOption = (versionNumbers a).toOption := by
  have hversion : (version file).Settles fun b a =>
      (b.major.lexeme, b.minor.lexeme) = (a.major.lexeme, a.minor.lexeme) :=
    (settles_version file).mono fun a b hsame => Prod.ext hsame.1 hsame.2
  exact hversion.optional.mono fun a b hsame => versionNumbers_toOption_congr hsame

/-- A type collection is read with the numbers of its version. -/
theorem reading_collection (collection : TypeCollection) (version : Option VersionText) :
    (Definition.collection collection version).reading =
      (versionNumbers version).toOption.map fun numbers =>
        .collection { collection.unplaced with version := numbers } := by
  simp only [Definition.reading, Definition.element]
  cases versionNumbers version <;> rfl

/-- An interface is read with the numbers of its version. -/
theorem reading_interface (interface : Interface) (version : Option VersionText) :
    (Definition.interface interface version).reading =
      (versionNumbers version).toOption.map fun numbers =>
        .interface { interface.unplaced with version := numbers } := by
  simp only [Definition.reading, Definition.element]
  cases versionNumbers version <;> rfl

/-- A type collection. -/
theorem settles_typeCollection : (typeCollection file).Settles fun b a =>
    b.reading = a.reading := by
  -- without a name the keyword and the last brace give the span, which does not count
  refine (((Settles.any _).pair (Settles.name.optional.pair ((Settles.any _).pair
    ((settles_elementVersion file).pair ((settles_typeDecl file).many.pair
      (Settles.any _)))))).mono ?_).via
  rintro ⟨first, name, _, version, types, last⟩ ⟨first', name', _, version', types', last'⟩
    ⟨-, hname, -, hversion, htypes, -⟩
  simp only at hname hversion htypes
  simp only [reading_collection, TypeCollection.unplaced, hname, hversion, htypes]

/-- The names of what an interface manages. -/
theorem settles_managesClause : managesClause.Settles fun b a =>
    b.map DottedName.text = a.map DottedName.text := by
  refine (((settles_dottedName.pair (settles_dottedName.skipThen _).many).skipThen _).mono ?_).via
  rintro ⟨first, others⟩ ⟨first', others'⟩ ⟨hfirst, hothers⟩
  simp only at hfirst hothers
  simp only [List.map_cons, hfirst, hothers]

/-- The names of what an interface may manage. -/
theorem settles_managed : (optional managesClause).Settles fun b a =>
    (b.getD []).map DottedName.text = (a.getD []).map DottedName.text := by
  refine settles_managesClause.optional.mono fun a b hsame => ?_
  have hgetD : ∀ managed : Option (List DottedName), (managed.getD []).map DottedName.text =
      (managed.map (List.map DottedName.text)).getD [] := by
    intro managed
    cases managed <;> rfl
  rw [hgetD, hgetD, hsame]

/-- An interface. -/
theorem settles_interface : (Source.interface file).Settles fun b a => b.reading = a.reading := by
  refine (((Settles.name.pair (settles_extendsClause.optional.pair
    (settles_managed.pair ((settles_elementVersion file).pair
      (settles_member file).many).braced))).skipThen _).mono ?_).via
  rintro ⟨name, base, managed, version, members⟩ ⟨name', base', managed', version', members'⟩
    ⟨hname, hbase, hmanaged, hversion, hmembers⟩
  simp only at hname hbase hmanaged hversion hmembers
  -- members that are the same, one by one, are the same kind by kind
  have htypes := map_filterMap_eq_of_unplaced type?_unplaced hmembers
  have hattributes := map_filterMap_eq_of_unplaced attribute?_unplaced hmembers
  have hmethods := map_filterMap_eq_of_unplaced method?_unplaced hmembers
  have hbroadcasts := map_filterMap_eq_of_unplaced broadcast?_unplaced hmembers
  simp only [reading_interface, Interface.unplaced, TypeCollection.unplaced, hname, hbase,
    hmanaged, hversion, htypes, hattributes, hmethods, hbroadcasts]

/-! ## Files -/

/-- The namespace of an import. -/
theorem settles_namespace :
    (via (fun (name, all) => some (if all then name.text ++ ".*" else name.text))
      (pair dottedName (flag ".*"))).Settles (· = ·) := by
  refine ((settles_dottedName.pair (Settles.flag ".*")).mono ?_).via
  rintro ⟨name, all⟩ ⟨name', all'⟩ ⟨hname, hall⟩
  simp only at hname hall
  simp only [hname, hall]

/-- An import. -/
theorem settles_importClause : (importClause file).Settles fun b a => b.unplaced = a.unplaced := by
  have hmodel : (via (fun _ => (none : Option String)) (mark "model")).Settles (· = ·) :=
    ((Settles.any _).mono fun _ _ _ => rfl).via
  have hfrom := (Settles.token .string).skipThen (mark "from")
  refine (((Settles.any _).pair ((hmodel.pair (Settles.token .string)).either
    (settles_namespace.pair hfrom))).mono ?_).via
  rintro ⟨first, ns, uri⟩ ⟨first', ns', uri'⟩ ⟨-, hns, huri⟩
  simp only at hns huri
  simp only [Import.unplaced, hns, huri]

/-- A whole file: its package, its imports and its elements. -/
theorem settles_draft : (draft file).Settles fun b a =>
    b.package = a.package ∧ b.imports.map Import.unplaced = a.imports.map Import.unplaced ∧
      b.definitions.map Definition.reading = a.definitions.map Definition.reading := by
  have hpackage : packageClause.Settles fun b a => b.2.text = a.2.text :=
    ((Settles.any _).pair settles_dottedName).mono fun _ _ hsame => hsame.2
  refine ((hpackage.pair ((settles_importClause file).many.pair
    ((settles_typeCollection file).either (settles_interface file)).many)).mono ?_).via
  rintro a b ⟨hname, himports, hdefinitions⟩
  exact ⟨hname, himports, hdefinitions⟩

end FrancaLint.Source
