import FrancaLint.Proofs.Document.Labels
import FrancaLint.Proofs.Source.Reading

/-! # What a document is read from

The parts of a document are the values of phrases, and every value is read from a part of the
tokens. So each declared name is that of a token, and each reference that of a dotted name in the
text.

* `Phrase.Occurs`: a value is read from a part of some tokens. There is one rule for every kind of
  phrase, by which an occurrence is taken apart.
* `AreReadFrom`, names and references that are read from some tokens, with one lemma for every rule
  of the grammar.
* `areReadFrom_of_ofSource`: those of a document are read from the tokens of its text. -/

namespace FrancaLint

namespace Source

/-! ## Occurrences of phrases -/

namespace Phrase

variable {α β : Type} {tokens : List Token}

/-- The value **occurs** in some tokens: a part of them is a sentence of the phrase with this
value. -/
def Occurs (phrase : Phrase α) (tokens : List Token) (a : α) : Prop :=
  ∃ part, part <:+: tokens ∧ Yields phrase part a

/-- A sentence occurs in its own tokens. -/
theorem Occurs.of_yields {phrase : Phrase α} {a : α} (h : Yields phrase tokens a) :
    phrase.Occurs tokens a :=
  ⟨tokens, List.infix_rfl, h⟩

/-- A token is one of the tokens. -/
theorem Occurs.token {terminal : Terminal} {t : Token}
    (h : (Phrase.token terminal).Occurs tokens t) : t ∈ tokens ∧ t.terminal = terminal := by
  obtain ⟨part, hpart, hyields⟩ := h
  obtain ⟨rfl, hterminal⟩ := yields_token_iff.mp hyields
  exact ⟨hpart.subset List.mem_cons_self, hterminal⟩

/-- The parts of a pair occur. -/
theorem Occurs.pair {first : Phrase α} {second : Phrase β} {ab : α × β}
    (h : (Phrase.pair first second).Occurs tokens ab) :
    first.Occurs tokens ab.1 ∧ second.Occurs tokens ab.2 := by
  obtain ⟨part, hpart, hyields⟩ := h
  obtain ⟨us, vs, rfl, hfirst, hsecond⟩ := yields_pair_iff.mp hyields
  exact ⟨⟨us, (List.prefix_append us vs).isInfix.trans hpart, hfirst⟩,
    ⟨vs, (List.suffix_append us vs).isInfix.trans hpart, hsecond⟩⟩

/-- One side of a choice occurs. -/
theorem Occurs.either {left right : Phrase α} {a : α}
    (h : (Phrase.either left right).Occurs tokens a) :
    left.Occurs tokens a ∨ right.Occurs tokens a := by
  obtain ⟨part, hpart, hyields⟩ := h
  exact (yields_either_iff.mp hyields).imp (⟨part, hpart, ·⟩) (⟨part, hpart, ·⟩)

/-- The items of a repetition occur. -/
theorem Occurs.many {item : Phrase α} {as : List α} (h : (Phrase.many item).Occurs tokens as) :
    ∀ a ∈ as, item.Occurs tokens a := by
  obtain ⟨part, hpart, hyields⟩ := h
  induction as generalizing part with
  | nil => exact fun a ha => absurd ha List.not_mem_nil
  | cons a as ih =>
    obtain ⟨us, vs, rfl, hone, hrest⟩ := yields_many_cons_iff.mp hyields
    exact List.forall_mem_cons.mpr ⟨⟨us, (List.prefix_append us vs).isInfix.trans hpart, hone⟩,
      ih vs ((List.suffix_append us vs).isInfix.trans hpart) hrest⟩

/-- What a value is made of occurs. -/
theorem Occurs.via {f : α → β} {phrase : Phrase α} {b : β}
    (h : (Phrase.via f phrase).Occurs tokens b) : ∃ a, phrase.Occurs tokens a ∧ f a = b := by
  obtain ⟨part, hpart, hyields⟩ := h
  obtain ⟨a, ha, rfl⟩ := yields_via_iff.mp hyields
  exact ⟨a, ⟨part, hpart, ha⟩, rfl⟩

/-- What stands behind something else occurs. -/
theorem Occurs.skipThen {first : Phrase β} {second : Phrase α} {a : α}
    (h : (Phrase.skipThen first second).Occurs tokens a) : second.Occurs tokens a := by
  obtain ⟨ab, hab, rfl⟩ := h.via
  exact hab.pair.2

/-- What stands in front of something else occurs. -/
theorem Occurs.thenSkip {first : Phrase α} {second : Phrase β} {a : α}
    (h : (Phrase.thenSkip first second).Occurs tokens a) : first.Occurs tokens a := by
  obtain ⟨ab, hab, rfl⟩ := h.via
  exact hab.pair.1

/-- What stands between braces occurs. -/
theorem Occurs.braced {phrase : Phrase α} {a : α} (h : (Phrase.braced phrase).Occurs tokens a) :
    phrase.Occurs tokens a :=
  h.skipThen.thenSkip

/-- A part that is not left out occurs. -/
theorem Occurs.optional {phrase : Phrase α} {o : Option α}
    (h : (Phrase.optional phrase).Occurs tokens o) : ∀ a ∈ o, phrase.Occurs tokens a := by
  rintro a rfl
  rcases h.either with h | ⟨part, -, hyields⟩
  · obtain ⟨b, hb, heq⟩ := h.via
    exact Option.some.inj heq ▸ hb
  · exact absurd (yields_done_iff.mp hyields).2 (Option.some_ne_none a)

/-- One of several phrases occurs. -/
theorem Occurs.oneOf {phrases : List (Phrase α)} {a : α}
    (h : (Phrase.oneOf phrases).Occurs tokens a) : ∃ phrase ∈ phrases, phrase.Occurs tokens a := by
  induction phrases with
  | nil =>
    obtain ⟨part, -, hyields⟩ := h
    exact absurd hyields not_yields_never
  | cons phrase phrases ih =>
    rcases h.either with h | h
    · exact ⟨phrase, List.mem_cons_self, h⟩
    · obtain ⟨other, hother, h⟩ := ih h
      exact ⟨other, List.mem_cons_of_mem _ hother, h⟩

end Phrase

end Source

open Source Phrase

/-! ## Names and references that are read -/

variable (file : String) (tokens : List Token)

/-- The name is that of one of the tokens. -/
def Label.IsReadFrom (label : Label) : Prop :=
  ∃ t ∈ tokens, t.terminal = .name ∧ label = ⟨t.text, t.span file⟩

/-- The reference is a dotted name in the tokens. -/
def TypeRef.IsReadFrom (ref : TypeRef) : Prop :=
  ∃ dotted, dottedName.Occurs tokens dotted ∧
    (ref = dotted.typeRef file ∨ ref = dotted.declaredRef file)

/-- Names and references that are **read** from the tokens of a file. -/
structure AreReadFrom (labels : List Label) (refs : List TypeRef) : Prop where
  /-- The names are those of tokens. -/
  labels : ∀ label ∈ labels, label.IsReadFrom file tokens
  /-- The references are dotted names in the tokens. -/
  refs : ∀ ref ∈ refs, ref.IsReadFrom file tokens

namespace AreReadFrom

variable {file tokens} {labels others : List Label} {refs further : List TypeRef}

/-- Some of them are read as well. -/
theorem subset (h : AreReadFrom file tokens labels refs) (hlabels : others ⊆ labels)
    (hrefs : further ⊆ refs) : AreReadFrom file tokens others further :=
  ⟨fun label hlabel => h.labels label (hlabels hlabel), fun ref href => h.refs ref (hrefs href)⟩

/-- Nothing is read. -/
theorem nil : AreReadFrom file tokens [] [] :=
  ⟨by simp, by simp⟩

/-- Both of two lists are read. -/
theorem append (h : AreReadFrom file tokens labels refs)
    (h' : AreReadFrom file tokens others further) :
    AreReadFrom file tokens (labels ++ others) (refs ++ further) :=
  ⟨List.forall_mem_append.mpr ⟨h.labels, h'.labels⟩, List.forall_mem_append.mpr ⟨h.refs, h'.refs⟩⟩

/-- Those of several parts are read. -/
theorem flatMap {α : Type} {parts : List α} {labels : α → List Label} {refs : α → List TypeRef}
    (h : ∀ a ∈ parts, AreReadFrom file tokens (labels a) (refs a)) :
    AreReadFrom file tokens (parts.flatMap labels) (parts.flatMap refs) := by
  constructor
  · intro label hmem
    obtain ⟨a, ha, hlabel⟩ := List.mem_flatMap.mp hmem
    exact (h a ha).labels label hlabel
  · intro ref hmem
    obtain ⟨a, ha, href⟩ := List.mem_flatMap.mp hmem
    exact (h a ha).refs ref href

/-- Those of several typed names are read. -/
theorem typedNames {typed : List TypedName}
    (h : ∀ t ∈ typed, AreReadFrom file tokens [t.label] [t.type]) :
    AreReadFrom file tokens (typed.map TypedName.label) (typed.map TypedName.type) := by
  rw [List.map_eq_flatMap, List.map_eq_flatMap]
  exact flatMap h

/-- The name that a token stands for is read. -/
theorem name {t : Token} (h : Phrase.name.Occurs tokens t) :
    AreReadFrom file tokens [⟨t.text, t.span file⟩] [] :=
  ⟨List.forall_mem_singleton.mpr ⟨t, h.token.1, h.token.2, rfl⟩, by simp⟩

end AreReadFrom

namespace Source

variable {file tokens}

/-! ## Rules of the grammar -/

/-- A reference to a type. -/
theorem areReadFrom_typeRef {ref : TypeRef} (h : (typeRef file).Occurs tokens ref) :
    AreReadFrom file tokens [] [ref] := by
  obtain ⟨dotted, hdotted, rfl⟩ := h.via
  exact ⟨by simp, List.forall_mem_singleton.mpr ⟨dotted, hdotted, .inl rfl⟩⟩

/-- A type and the name that has it. -/
theorem areReadFrom_typedName {typed : TypedName} (h : (typedName file).Occurs tokens typed) :
    AreReadFrom file tokens [typed.label] [typed.type] := by
  obtain ⟨⟨type, isArray, name⟩, hparts, rfl⟩ := h.via
  obtain ⟨htype, hparts⟩ := hparts.pair
  exact (AreReadFrom.name hparts.pair.2).append (areReadFrom_typeRef htype)

/-- Typed names between braces. -/
theorem areReadFrom_typedNames {typed : List TypedName}
    (h : (braced (many (typedName file))).Occurs tokens typed) :
    AreReadFrom file tokens (typed.map TypedName.label) (typed.map TypedName.type) :=
  .typedNames fun t ht => areReadFrom_typedName (h.braced.many t ht)

/-- What a declaration extends. -/
theorem areReadFrom_base {base : Option DottedName}
    (h : ∀ dotted ∈ base, extendsClause.Occurs tokens dotted) :
    AreReadFrom file tokens [] (base.map (·.declaredRef file)).toList := by
  cases base with
  | none => exact .nil
  | some dotted =>
    have hdotted : dottedName.Occurs tokens dotted := (h dotted rfl).skipThen
    exact ⟨by simp, List.forall_mem_singleton.mpr ⟨dotted, hdotted, .inr rfl⟩⟩

/-- An enumerator. -/
theorem areReadFrom_enumerator {enumerator : Enumerator}
    (h : (Source.enumerator file).Occurs tokens enumerator) :
    AreReadFrom file tokens [enumerator.label] [] := by
  obtain ⟨⟨name, value, comma⟩, hparts, rfl⟩ := h.via
  exact .name hparts.pair.1

/-- An enumeration. -/
theorem areReadFrom_enumeration {decl : TypeDecl} (h : (enumeration file).Occurs tokens decl) :
    AreReadFrom file tokens decl.labels decl.references := by
  obtain ⟨⟨name, base, enumerators⟩, hparts, rfl⟩ := h.via
  obtain ⟨hname, hparts⟩ := hparts.skipThen.pair
  obtain ⟨hbase, henumerators⟩ := hparts.pair
  have hlabels : AreReadFrom file tokens (enumerators.flatMap fun e => [e.label])
      (enumerators.flatMap fun _ => []) :=
    .flatMap fun e he => areReadFrom_enumerator (henumerators.braced.many e he)
  rw [← List.map_eq_flatMap] at hlabels
  exact (((AreReadFrom.name hname).append hlabels).append (areReadFrom_base hbase.optional)).subset
    (by simp [TypeDecl.labels, TypeBody.labels]) (List.subset_append_right _ _)

/-- A map. -/
theorem areReadFrom_mapType {decl : TypeDecl} (h : (mapType file).Occurs tokens decl) :
    AreReadFrom file tokens decl.labels decl.references := by
  obtain ⟨⟨name, key, value⟩, hparts, rfl⟩ := h.via
  obtain ⟨hname, hparts⟩ := hparts.skipThen.pair
  obtain ⟨hkey, hvalue⟩ := hparts.braced.pair
  exact (AreReadFrom.name hname).append
    ((areReadFrom_typeRef hkey).append (areReadFrom_typeRef hvalue.skipThen))

/-- Another name for a type. -/
theorem areReadFrom_aliasType {decl : TypeDecl} (h : (aliasType file).Occurs tokens decl) :
    AreReadFrom file tokens decl.labels decl.references := by
  obtain ⟨⟨name, target⟩, hparts, rfl⟩ := h.via
  obtain ⟨hname, htarget⟩ := hparts.skipThen.pair
  exact (AreReadFrom.name hname).append (areReadFrom_typeRef htarget.skipThen)

/-- The name, the base and the fields of a struct or a union. -/
theorem areReadFrom_fields {name : Token} {base : Option DottedName} {fields : List TypedName}
    (hname : Phrase.name.Occurs tokens name)
    (hbase : ∀ dotted ∈ base, extendsClause.Occurs tokens dotted)
    (hfields : (braced (many (typedName file))).Occurs tokens fields) :
    AreReadFrom file tokens (⟨name.text, name.span file⟩ :: fields.map TypedName.label)
      ((base.map (·.declaredRef file)).toList ++ fields.map TypedName.type) :=
  (AreReadFrom.name hname).append ((areReadFrom_base hbase).append (areReadFrom_typedNames hfields))

/-- Of the clauses in front of the fields of a struct, only the first one names a base. -/
theorem occurs_structBase {base : Option DottedName}
    (h : (oneOf [via some extendsClause, via (fun _ => none) (mark "polymorphic"),
      done none]).Occurs tokens base) :
    ∀ dotted ∈ base, extendsClause.Occurs tokens dotted := by
  rintro dotted rfl
  obtain ⟨clause, hclause, hdotted⟩ := h.oneOf
  simp only [List.mem_cons, List.not_mem_nil, or_false] at hclause
  rcases hclause with rfl | rfl | rfl
  · obtain ⟨other, hother, heq⟩ := hdotted.via
    exact Option.some.inj heq ▸ hother
  · obtain ⟨_, -, heq⟩ := hdotted.via
    cases heq
  · obtain ⟨part, -, hyields⟩ := hdotted
    exact absurd (yields_done_iff.mp hyields).2 (Option.some_ne_none dotted)

/-- A struct. -/
theorem areReadFrom_structType {decl : TypeDecl} (h : (structType file).Occurs tokens decl) :
    AreReadFrom file tokens decl.labels decl.references := by
  obtain ⟨⟨name, base, fields⟩, hparts, rfl⟩ := h.via
  obtain ⟨hname, hparts⟩ := hparts.skipThen.pair
  obtain ⟨hbase, hfields⟩ := hparts.pair
  exact areReadFrom_fields hname (occurs_structBase hbase) hfields

/-- A union. -/
theorem areReadFrom_unionType {decl : TypeDecl} (h : (unionType file).Occurs tokens decl) :
    AreReadFrom file tokens decl.labels decl.references := by
  obtain ⟨⟨name, base, fields⟩, hparts, rfl⟩ := h.via
  obtain ⟨hname, hparts⟩ := hparts.skipThen.pair
  obtain ⟨hbase, hfields⟩ := hparts.pair
  exact areReadFrom_fields hname hbase.optional hfields

/-- An array. -/
theorem areReadFrom_arrayType {decl : TypeDecl} (h : (arrayType file).Occurs tokens decl) :
    AreReadFrom file tokens decl.labels decl.references := by
  obtain ⟨⟨name, element⟩, hparts, rfl⟩ := h.via
  obtain ⟨hname, helement⟩ := hparts.skipThen.pair
  exact (AreReadFrom.name hname).append (areReadFrom_typeRef helement.skipThen)

/-- A type declaration. -/
theorem areReadFrom_typeDecl {decl : TypeDecl} (h : (typeDecl file).Occurs tokens decl) :
    AreReadFrom file tokens decl.labels decl.references := by
  obtain ⟨kind, hkind, h⟩ := h.skipThen.oneOf
  simp only [List.mem_cons, List.not_mem_nil, or_false] at hkind
  rcases hkind with rfl | rfl | rfl | rfl | rfl | rfl
  · exact areReadFrom_enumeration h
  · exact areReadFrom_mapType h
  · exact areReadFrom_aliasType h
  · exact areReadFrom_structType h
  · exact areReadFrom_unionType h
  · exact areReadFrom_arrayType h

/-- A list of arguments. -/
theorem areReadFrom_arguments {keyword : String} {typed : List TypedName}
    (h : (arguments file keyword).Occurs tokens typed) :
    AreReadFrom file tokens (typed.map TypedName.label) (typed.map TypedName.type) := by
  rcases h.either with h | ⟨part, -, hyields⟩
  · exact areReadFrom_typedNames h.skipThen
  · rw [(yields_done_iff.mp hyields).2]
    exact .nil

/-- A method. -/
theorem areReadFrom_methodDecl {method : Method} (h : (methodDecl file).Occurs tokens method) :
    AreReadFrom file tokens method.labels method.typeRefs := by
  obtain ⟨⟨name, flag, inArgs, outArgs, _⟩, hparts, rfl⟩ := h.via
  obtain ⟨hname, hparts⟩ := hparts.skipThen.pair
  obtain ⟨hin, hparts⟩ := hparts.pair.2.braced.pair
  have hall := (AreReadFrom.name hname).append
    ((areReadFrom_arguments hin).append (areReadFrom_arguments hparts.pair.1))
  rw [← List.map_append, ← List.map_append] at hall
  exact hall

/-- A broadcast. -/
theorem areReadFrom_broadcastDecl {broadcast : Broadcast}
    (h : (broadcastDecl file).Occurs tokens broadcast) :
    AreReadFrom file tokens broadcast.labels broadcast.typeRefs := by
  obtain ⟨⟨name, flag, outArgs⟩, hparts, rfl⟩ := h.via
  obtain ⟨hname, hparts⟩ := hparts.skipThen.pair
  exact (AreReadFrom.name hname).append (areReadFrom_arguments hparts.pair.2.braced)

/-- The names that a member declares. -/
def Member.labels : Member → List Label
  | .attribute a => [a.label]
  | .method m => m.labels
  | .broadcast b => b.labels
  | .type t => t.labels

/-- The references in a member. -/
def Member.typeRefs : Member → List TypeRef
  | .attribute a => [a.type]
  | .method m => m.typeRefs
  | .broadcast b => b.typeRefs
  | .type t => t.references

/-- A member. -/
theorem areReadFrom_member {m : Member} (h : (member file).Occurs tokens m) :
    AreReadFrom file tokens m.labels m.typeRefs := by
  obtain ⟨kind, hkind, hmember⟩ := h.oneOf
  simp only [List.mem_cons, List.not_mem_nil, or_false] at hkind
  rcases hkind with rfl | rfl | rfl | rfl <;> obtain ⟨a, ha, rfl⟩ := hmember.via
  · exact areReadFrom_typedName ha.skipThen.thenSkip
  · exact areReadFrom_methodDecl ha
  · exact areReadFrom_broadcastDecl ha
  · exact areReadFrom_typeDecl ha

/-- What the members of one kind have is what members have. -/
theorem flatMap_filterMap_subset {α β : Type} {kind : Member → Option α} {members : List Member}
    {part : α → List β} {whole : Member → List β}
    (h : ∀ member a, kind member = some a → part a ⊆ whole member) :
    (members.filterMap kind).flatMap part ⊆ members.flatMap whole := by
  intro b hb
  obtain ⟨a, ha, hb⟩ := List.mem_flatMap.mp hb
  obtain ⟨member, hmember, hkind⟩ := List.mem_filterMap.mp ha
  exact List.mem_flatMap.mpr ⟨member, hmember, h member a hkind hb⟩

/-- What members of all kinds have is what the members have. -/
theorem flatMap_kinds_subset {β : Type} (members : List Member) (whole : Member → List β) :
    (members.filterMap Member.type?).flatMap (fun t => whole (.type t)) ++
      ((members.filterMap Member.method?).flatMap (fun m => whole (.method m)) ++
          (members.filterMap Member.attribute?).flatMap (fun a => whole (.attribute a)) ++
        (members.filterMap Member.broadcast?).flatMap fun b => whole (.broadcast b)) ⊆
      members.flatMap whole := by
  refine List.append_subset.mpr ⟨?_, List.append_subset.mpr ⟨List.append_subset.mpr ⟨?_, ?_⟩, ?_⟩⟩
  all_goals
    refine flatMap_filterMap_subset ?_
    rintro (_ | _ | _ | _) a ⟨⟩
    exact List.Subset.refl _

/-- The element of a definition, without its version. -/
def Definition.bare : Definition → Element
  | .collection c _ => .collection c
  | .interface i _ => .interface i

/-- A type collection. -/
theorem areReadFrom_typeCollection {definition : Definition}
    (h : (typeCollection file).Occurs tokens definition) :
    AreReadFrom file tokens definition.bare.labels definition.bare.typeRefs := by
  obtain ⟨⟨first, name, _, version, types, last⟩, hparts, rfl⟩ := h.via
  obtain ⟨hname, hparts⟩ := hparts.pair.2.pair
  have htypes : AreReadFrom file tokens (types.flatMap TypeDecl.labels)
      (types.flatMap TypeDecl.references) :=
    .flatMap fun decl hdecl => areReadFrom_typeDecl (hparts.pair.2.pair.2.pair.1.many decl hdecl)
  have hown : AreReadFrom file tokens (Element.ownLabels (.collection
      { name := (name.map Token.text).getD "",
        span := (name.map (·.span file)).getD (first.spanTo last file) })) [] := by
    cases name with
    | none => exact .nil
    | some t =>
      exact (AreReadFrom.name (hname.optional t rfl)).subset (Element.ownLabels_subset _)
        (List.Subset.refl _)
  exact hown.append (htypes.append .nil)

/-- An interface. -/
theorem areReadFrom_interface {definition : Definition}
    (h : (Source.interface file).Occurs tokens definition) :
    AreReadFrom file tokens definition.bare.labels definition.bare.typeRefs := by
  obtain ⟨⟨name, base, managed, version, members⟩, hparts, rfl⟩ := h.via
  obtain ⟨hname, hparts⟩ := hparts.skipThen.pair
  have hmembers : AreReadFrom file tokens (members.flatMap Member.labels)
      (members.flatMap Member.typeRefs) :=
    .flatMap fun m hm => areReadFrom_member (hparts.pair.2.pair.2.braced.pair.2.many m hm)
  have hlabels := flatMap_kinds_subset members Member.labels
  have hrefs := flatMap_kinds_subset members Member.typeRefs
  simp only [Member.labels, Member.typeRefs, ← List.map_eq_flatMap] at hlabels hrefs
  have hown := List.subset_append_of_subset_left (members.flatMap Member.labels)
    (Element.ownLabels_subset (Element.interface
      { name := name.text, span := name.span file }))
  refine ((AreReadFrom.name hname).append hmembers).subset (List.append_subset.mpr ⟨hown, ?_⟩) hrefs
  exact List.subset_append_of_subset_right _ hlabels

/-- A definition. -/
theorem areReadFrom_definition {definition : Definition}
    (h : (either (typeCollection file) (Source.interface file)).Occurs tokens definition) :
    AreReadFrom file tokens definition.bare.labels definition.bare.typeRefs := by
  rcases h.either with h | h
  · exact areReadFrom_typeCollection h
  · exact areReadFrom_interface h

/-- The imports and the definitions of a file occur in its tokens. -/
theorem occurs_of_draft {a : Draft} (h : (draft file).Occurs tokens a) :
    (∀ i ∈ a.imports, (importClause file).Occurs tokens i) ∧ ∀ definition ∈ a.definitions,
      (either (typeCollection file) (Source.interface file)).Occurs tokens definition := by
  obtain ⟨⟨⟨first, name⟩, imports, definitions⟩, hparts, rfl⟩ := h.via
  exact ⟨hparts.pair.2.pair.1.many, hparts.pair.2.pair.2.many⟩

/-! ## Documents -/

/-- A definition is turned into its element with some version. -/
theorem Definition.eq_of_element {definition : Definition} {element : Element}
    (h : definition.element = .ok element) :
    (∃ c version numbers, definition = .collection c version ∧
        element = .collection { c with version := numbers }) ∨
      ∃ i version numbers, definition = .interface i version ∧
        element = .interface { i with version := numbers } := by
  cases definition with
  | collection c version =>
    cases hversion : versionNumbers version with
    | error fault => simp [Definition.element, hversion, bind, Except.bind] at h
    | ok numbers =>
      simp only [Definition.element, hversion, bind, Except.bind] at h
      cases h
      exact .inl ⟨c, version, numbers, rfl, rfl⟩
  | interface i version =>
    cases hversion : versionNumbers version with
    | error fault => simp [Definition.element, hversion, bind, Except.bind] at h
    | ok numbers =>
      simp only [Definition.element, hversion, bind, Except.bind] at h
      cases h
      exact .inr ⟨i, version, numbers, rfl, rfl⟩

/-- Every element is that of a definition. -/
theorem exists_definition_of_mapM {definitions : List Definition} {elements : List Element}
    (h : definitions.mapM Definition.element = .ok elements) {element : Element}
    (hmem : element ∈ elements) : ∃ definition ∈ definitions, definition.element = .ok element := by
  induction definitions generalizing elements with
  | nil =>
    cases h
    cases hmem
  | cons first rest ih =>
    rw [List.mapM_cons] at h
    cases hfirst : first.element with
    | error fault =>
      rw [hfirst] at h
      cases h
    | ok other =>
      cases hothers : rest.mapM Definition.element with
      | error fault =>
        rw [hfirst, hothers] at h
        cases h
      | ok others =>
        rw [hfirst, hothers] at h
        cases h
        rcases List.mem_cons.mp hmem with rfl | hmem
        · exact ⟨first, List.mem_cons_self, hfirst⟩
        · obtain ⟨definition, hdefinition, helement⟩ := ih hothers hmem
          exact ⟨definition, List.mem_cons_of_mem _ hdefinition, helement⟩

/-- The elements of a document are those that it was made from. -/
theorem mem_of_mem_collections_or_interfaces {elements : List Element} {element : Element}
    (h : element ∈ (collectionsOf elements).map Element.collection ++
      (interfacesOf elements).map Element.interface) : element ∈ elements := by
  rcases List.mem_append.mp h with h | h
  · obtain ⟨c, hc, rfl⟩ := List.mem_map.mp h
    obtain ⟨other, hother, heq⟩ := List.mem_filterMap.mp hc
    cases other with
    | collection c' => exact Option.some.inj heq ▸ hother
    | interface i => cases heq
  · obtain ⟨i, hi, rfl⟩ := List.mem_map.mp h
    obtain ⟨other, hother, heq⟩ := List.mem_filterMap.mp hi
    cases other with
    | collection c => cases heq
    | interface i' => exact Option.some.inj heq ▸ hother

section Read

variable {text path : String} {digest : Option String} {document : Document}
  (h : Document.ofSource text path digest = .ok document)
include h

/-- The imports of a document occur in the tokens of its text. -/
theorem occurs_of_mem_imports {i : Import} (hmem : i ∈ document.imports) :
    (importClause path).Occurs (scanFile path text).1 i := by
  obtain ⟨tokens, draft, hscan, hdraft⟩ := exists_draft_of_ofSource h
  obtain ⟨elements, -, -, rfl⟩ := draft.exists_elements_of_document hdraft
  rw [hscan]
  exact (occurs_of_draft (.of_yields (yields_of_scanFile hscan))).1 i hmem

/-- The elements of a document are those of definitions that occur in the tokens of its text. -/
theorem occurs_of_mem_elements {element : Element} (hmem : element ∈ document.elements) :
    ∃ definition, (either (typeCollection path) (Source.interface path)).Occurs
      (scanFile path text).1 definition ∧ definition.element = .ok element := by
  obtain ⟨tokens, draft, hscan, hdraft⟩ := exists_draft_of_ofSource h
  obtain ⟨elements, helements, -, rfl⟩ := draft.exists_elements_of_document hdraft
  obtain ⟨definition, hdefinition, helement⟩ :=
    exists_definition_of_mapM helements (mem_of_mem_collections_or_interfaces hmem)
  rw [hscan]
  exact ⟨definition,
    (occurs_of_draft (.of_yields (yields_of_scanFile hscan))).2 definition hdefinition, helement⟩

/-- **What a document declares and refers to is read from its text**: the names are those of tokens,
and the references are dotted names. -/
theorem areReadFrom_of_ofSource {element : Element} (hmem : element ∈ document.elements) :
    AreReadFrom path (scanFile path text).1 element.labels element.typeRefs := by
  obtain ⟨definition, hdefinition, helement⟩ := occurs_of_mem_elements h hmem
  have hread := areReadFrom_definition hdefinition
  -- the version of an element is neither a name nor a reference
  rcases Definition.eq_of_element helement with
    ⟨c, version, numbers, rfl, rfl⟩ | ⟨i, version, numbers, rfl, rfl⟩
  · exact hread
  · exact hread

end Read

end Source

end FrancaLint
