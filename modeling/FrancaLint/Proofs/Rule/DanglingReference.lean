import FrancaLint.Proofs.Document.References
import FrancaLint.Proofs.TypeScope.Declared
import FrancaLint.Rule.DanglingReference
import Mathlib.Data.List.Flatten

/-! # Reports of dangling references

A dangling reference is no basic type and means nothing where it stands. The rule goes through the
type declarations and the methods of a document, but not through its attributes and broadcasts. It
looks for the references of a type declaration where the declaration stands.

* `Reference.IsDangling` and `Reference.finding`, the report that such a reference calls for.
* `TypeScope.typeReferences`, the references in the type declarations where these stand.
* `danglingReferences_eq`: the findings are those of the references in type declarations and
  methods, one for each.
* `dangling_references_are_reported`: they are those of all references as long as none dangles in an
  attribute or a broadcast.
* `dangling_attribute_is_silent`: such a one goes unreported. -/

namespace FrancaLint

namespace Reference

/-- The reference is **dangling**: it is no basic type, and it means nothing inside the element that
holds it. -/
def IsDangling (scope : TypeScope) (document : Document) (reference : Reference) : Prop :=
  reference.ref.isPrimitive = false ∧
    scope.resolve reference.ref document reference.element = none

instance (scope : TypeScope) (document : Document) : DecidablePred (IsDangling scope document) :=
  fun _ => inferInstanceAs (Decidable (_ ∧ _))

/-- The error that names a dangling reference, at its place. -/
def finding (document : Document) (reference : Reference) : Diagnostic :=
  .about .error ("Unresolved type reference '" ++ reference.ref.display ++ "'")
    { document := document.sourcePath, element := reference.path } reference.ref.span

end Reference

/-- The references in the type declarations of a document, each in the element where its declaration
stands. -/
def TypeScope.typeReferences (scope : TypeScope) (document : Document) : List Reference :=
  (scope.typesOf document).flatMap fun site => site.element.holding site.decl.placedReferences

/-- Where the type declarations stand at their own places, these are their references. -/
theorem TypeScope.typeReferences_eq {scope : TypeScope} {document : Document}
    (h : scope.typesOf document = document.sites) :
    scope.typeReferences document = document.typeReferences := by
  simp only [typeReferences, h, Document.sites, Document.declarations, Document.typeReferences,
    List.map_flatMap, List.map_map, List.flatMap_assoc, List.flatMap_map, Function.comp_def]
  rfl

namespace Rule

/-- The errors for the dangling ones among some references of a document. -/
def findings (document : Document) (scope : TypeScope) (references : List Reference) :
    List Diagnostic :=
  (references.filter (·.IsDangling scope document)).map (·.finding document)

variable {document : Document} {scope : TypeScope}

/-- The errors for two lists of references are those for one and then those for the other. -/
theorem findings_append (references others : List Reference) :
    findings document scope (references ++ others) =
      findings document scope references ++ findings document scope others := by
  rw [findings, List.filter_append, List.map_append]
  rfl

/-- The errors for lists of references, one list behind the other. -/
theorem findings_flatMap {α : Type} (items : List α) (references : α → List Reference) :
    findings document scope (items.flatMap references) =
      items.flatMap fun item => findings document scope (references item) := by
  induction items with
  | nil => rfl
  | cons item items ih => rw [List.flatMap_cons, List.flatMap_cons, findings_append, ih]

/-- Without dangling references there is no error. -/
theorem findings_eq_nil_iff {references : List Reference} :
    findings document scope references = [] ↔
      ∀ reference ∈ references, ¬ reference.IsDangling scope document := by
  rw [findings, List.map_eq_nil_iff, List.filter_eq_nil_iff]
  simp only [decide_eq_true_eq]

/-- The rule finds a reference if it is dangling. -/
theorem danglingReference_eq (reference : Reference) :
    danglingReference document scope reference.element reference.path reference.ref =
      findings document scope [reference] := by
  unfold danglingReference findings
  by_cases hdangling : reference.IsDangling scope document
  · have hreported : ¬ (reference.ref.isPrimitive ||
        (scope.resolve reference.ref document reference.element).isSome) = true := by
      rw [hdangling.1, hdangling.2]
      decide
    rw [if_neg hreported, List.filter_cons_of_pos (by simpa using hdangling)]
    rfl
  · have hsilent : (reference.ref.isPrimitive ||
        (scope.resolve reference.ref document reference.element).isSome) = true := by
      rw [Reference.IsDangling, not_and, ← ne_eq, Option.ne_none_iff_isSome] at hdangling
      cases hprimitive : reference.ref.isPrimitive with
      | true => rfl
      | false => exact hdangling hprimitive
    rw [if_pos hsilent, List.filter_cons_of_neg (by simpa using hdangling)]
    rfl

/-- The rule goes through the references of an element one by one. -/
theorem findings_holding (element : Element) (placed : List (RefPlace × TypeRef)) :
    findings document scope (element.holding placed) = placed.flatMap fun pair =>
      danglingReference document scope element (pair.1.pathIn element) pair.2 := by
  have hsingle : element.holding placed =
      placed.flatMap fun pair => [⟨element, pair.1, pair.2⟩] := List.map_eq_flatMap
  rw [hsingle, findings_flatMap]
  exact List.flatMap_congr fun pair _ => (danglingReference_eq ⟨element, pair.1, pair.2⟩).symm

/-- The places of a declaration belong to it. -/
theorem pathIn_placedReferences (element : Element) (decl : TypeDecl) :
    ∀ pair ∈ decl.placedReferences, pair.1.pathIn element = element.pathTo decl.name := by
  unfold TypeDecl.placedReferences
  cases decl.body <;> simp [RefPlace.pathIn, or_imp, forall_and]

/-- The references of a type declaration. -/
theorem danglingInType_eq (site : Site) :
    danglingInType document scope site =
      findings document scope (site.element.holding site.decl.placedReferences) := by
  rw [findings_holding, danglingInType, ← TypeDecl.map_snd_placedReferences, List.flatMap_map]
  refine List.flatMap_congr fun pair hpair => ?_
  rw [pathIn_placedReferences site.element site.decl pair hpair]
  rfl

/-- The references of a method. -/
theorem danglingInMethod_eq (i : Interface) (method : Method) :
    danglingInMethod document scope i method =
      findings document scope ((Element.interface i).holding method.placedReferences) := by
  rw [findings_holding, Method.placedReferences, List.flatMap_append, List.flatMap_map,
    List.flatMap_map, danglingInMethod, List.flatMap_append]
  rfl

/-- **One error for each dangling reference** in the type declarations, where these stand, and in
the methods of a document, in this order, and no other finding. -/
theorem danglingReferences_eq (document : Document) (scope : TypeScope) :
    danglingReferences document scope =
      findings document scope (scope.typeReferences document ++ document.methodReferences) := by
  have htypes : (scope.typesOf document).flatMap (danglingInType document scope) =
      findings document scope (scope.typeReferences document) := by
    rw [TypeScope.typeReferences, findings_flatMap]
    exact List.flatMap_congr fun site _ => danglingInType_eq site
  have hmethods : (document.interfaces.flatMap fun i =>
      i.methods.flatMap (danglingInMethod document scope i)) =
      findings document scope document.methodReferences := by
    simp only [Document.methodReferences, findings_flatMap]
    exact List.flatMap_congr fun i _ => List.flatMap_congr fun method _ =>
      danglingInMethod_eq i method
  rw [danglingReferences, htypes, hmethods, findings_append]

end Rule

/-- **Dangling references are reported**, one error for each and nothing else, in the type
declarations and in the methods of a document. A declaration that is one object at several places is
looked at where its name is known. Where every type declaration stands at its own place, the
references are those of the document, and all of them are reported exactly if none dangles in an
attribute or a broadcast. -/
theorem dangling_references_are_reported (document : Document) (scope : TypeScope) :
    Rule.danglingReferences document scope =
        Rule.findings document scope
          (scope.typeReferences document ++ document.methodReferences) ∧
      (scope.typesOf document = document.sites →
        Rule.danglingReferences document scope =
            Rule.findings document scope (document.typeReferences ++ document.methodReferences) ∧
          (Rule.danglingReferences document scope =
              Rule.findings document scope document.references ↔
            ∀ reference ∈ document.signalReferences, ¬ reference.IsDangling scope document)) := by
  have hreported := Rule.danglingReferences_eq document scope
  refine ⟨hreported, fun hstand => ?_⟩
  rw [TypeScope.typeReferences_eq hstand] at hreported
  refine ⟨hreported, ?_⟩
  rw [hreported, Document.references, Rule.findings_append _ document.signalReferences,
    List.self_eq_append_right, Rule.findings_eq_nil_iff]

/-- A field and an argument of unknown types, and an attribute of a type that is declared. -/
def strayDocument : Document :=
  { package := "p", sourcePath := "/p.fidl",
    interfaces := [{
      name := "I",
      types := [{
        name := "S", body := .struct [{ name := "f", type := { derived := some "Lost" } }] none }],
      methods := [{ name := "m", outArgs := [{ name := "a", type := { derived := some "Gone" } }] }],
      attributes := [{ name := "s", type := { derived := some "S" } }] }] }

/-- The field and the argument are reported, and that is all there is to report. -/
theorem findings_strayDocument :
    (TypeScope.ofDocuments [strayDocument]).typesOf strayDocument = strayDocument.sites ∧
    (∀ reference ∈ strayDocument.signalReferences,
      ¬ reference.IsDangling (.ofDocuments [strayDocument]) strayDocument) ∧
    Rule.danglingReferences strayDocument (.ofDocuments [strayDocument]) =
      Rule.findings strayDocument (.ofDocuments [strayDocument]) strayDocument.references ∧
    (Rule.danglingReferences strayDocument (.ofDocuments [strayDocument])).map (·.ref.element) =
      ["I.S", "I.m.a"] := by
  have hsignals : ∀ reference ∈ strayDocument.signalReferences,
      ¬ reference.IsDangling (.ofDocuments [strayDocument]) strayDocument :=
    Rule.findings_eq_nil_iff.mp (by decide +kernel)
  have hstand : (TypeScope.ofDocuments [strayDocument]).typesOf strayDocument =
      strayDocument.sites := TypeScope.typesOf_eq_sites_of_identity (by decide)
  obtain ⟨-, hall⟩ := (dangling_references_are_reported _ _).2 hstand
  exact ⟨hstand, hsignals, hall.mpr hsignals, by decide +kernel⟩

/-- An attribute of an unknown type, and a broadcast of another one. -/
def mutedDocument : Document :=
  { package := "p", sourcePath := "/p.fidl",
    interfaces := [{
      name := "I",
      attributes := [{ name := "a", type := { derived := some "Gone" } }],
      broadcasts := [{
        name := "b", outArgs := [{ name := "x", type := { derived := some "Lost" } }] }] }] }

/-- **A dangling reference may go unreported.** Neither the type of the attribute nor that of the
broadcast means anything, and nothing is found. -/
theorem dangling_attribute_is_silent :
    mutedDocument.references.map (·.ref.display) = ["Gone", "Lost"] ∧
    (∀ reference ∈ mutedDocument.references,
      reference.IsDangling (.ofDocuments [mutedDocument]) mutedDocument) ∧
    Rule.danglingReferences mutedDocument (.ofDocuments [mutedDocument]) = [] := by
  have hall : (mutedDocument.references.all fun reference => decide
      (reference.IsDangling (.ofDocuments [mutedDocument]) mutedDocument)) = true := by
    decide +kernel
  exact ⟨by decide +kernel, by simpa using hall, by decide +kernel⟩

end FrancaLint
