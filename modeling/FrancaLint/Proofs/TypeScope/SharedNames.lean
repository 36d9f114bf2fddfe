import FrancaLint.Proofs.Graph.CycleSearch
import FrancaLint.Proofs.TypeScope.Cycles
import FrancaLint.Rule.DanglingReference
import FrancaLint.Rule.MapKey
import FrancaLint.Rule.TypeCycle

/-! # Names that several declarations share

The rule on map keys is silent about a map that leads to a cycle, since cycles have a rule of their
own. That rule walks over names, and the declaration of a name that it meets first stands for all of
them: a cycle of another one is never reported.

* `AgreesOnNames`: declarations of one name refer to the same names, so that it does not matter
  which of them stands for the others.
* `exists_cycle_of_hasCycle`: a cycle that a declaration of a document leads to is then among those
  that are reported for the document.
* `echo_is_silent`: otherwise a map may lead to a cycle that no rule reports. -/

namespace FrancaLint

open Relation

namespace Graph

variable {κ : Type} {ring : List κ}

/-- On a ring every key leads to every other one. -/
theorem IsRing.reflTransGen {edge : κ → κ → Prop} (h : IsRing edge ring) {a b : κ} (ha : a ∈ ring)
    (hb : b ∈ ring) : ReflTransGen edge a b := by
  obtain ⟨first, between, rfl, -, hchain⟩ := h
  have hfrom := hchain.induction (ReflTransGen edge first) _ (fun _ _ hedge hk => hk.tail hedge)
    fun _ => .refl
  have hto := hchain.backwards_cons_induction (b := first) (ReflTransGen edge · first) _ (by simp)
    (fun _ _ hedge hk => hk.head hedge) .refl
  exact (hto a ha).trans (hfrom b hb)

/-- A ring starts with a node that has an edge and is on a cycle. -/
theorem IsRing.exists_onCycle {edge : κ → κ → Prop} (h : IsRing edge ring) :
    ∃ a ∈ ring, (∃ b, edge a b) ∧ OnCycle edge a := by
  have hleads := fun {a b} (ha : a ∈ ring) (hb : b ∈ ring) => h.reflTransGen ha hb
  obtain ⟨first, between, rfl, hnodup, hchain⟩ := h
  refine ⟨first, List.mem_cons_self, ?_⟩
  cases between with
  | nil =>
    have hedge : edge first first := List.isChain_pair.mp hchain
    exact ⟨⟨first, hedge⟩, Or.inr hedge⟩
  | cons second rest =>
    rw [List.cons_append, List.isChain_cons_cons] at hchain
    have hne : second ≠ first := by
      rintro rfl
      exact (List.nodup_cons.mp hnodup).1 List.mem_cons_self
    have hsecond : second ∈ first :: (second :: rest ++ [first]) :=
      List.mem_cons_of_mem _ List.mem_cons_self
    exact ⟨⟨second, hchain.1⟩, Or.inl ⟨second, hne, hleads List.mem_cons_self hsecond,
      hleads hsecond List.mem_cons_self⟩⟩

end Graph

namespace TypeScope

/-- What the nodes lead to **agrees on names**: declarations of one name refer to the same names. -/
def AgreesOnNames (scope : TypeScope) (nodes : List Site) : Prop :=
  ∀ site other, scope.ReachedFrom nodes site → scope.ReachedFrom nodes other →
    site.name = other.name → ∀ target, scope.Refers site target →
      ∃ target', scope.Refers other target' ∧ target'.name = target.name

section Agreement

variable {documents : List Document} {nodes : List Site} {edge : String → String → Prop}
  {met : String → Prop} (hcovers : CoversNames documents nodes edge met)
  (hagrees : (ofDocuments documents).AgreesOnNames nodes)
include hcovers hagrees

/-- The names that a search covers have the references of every declaration that it may meet. -/
theorem CoversNames.edge_of_refers {site target : Site}
    (hreached : (ofDocuments documents).ReachedFrom nodes site)
    (hrefers : (ofDocuments documents).Refers site target) (hmet : met site.name) :
    edge site.name target.name := by
  -- the declaration that stands for the name refers to the same names
  obtain ⟨other, ⟨-, hother⟩, hname, hedges⟩ := hcovers.stands site.name hmet
  obtain ⟨target', hrefers', heq⟩ := hagrees site other hreached hother hname.symm target hrefers
  exact (hedges _).mpr ⟨target', hrefers', heq⟩

/-- The search meets the names of all declarations that the nodes lead to. -/
theorem CoversNames.met_of_reached {site : Site}
    (hreached : (ofDocuments documents).ReachedFrom nodes site) : met site.name := by
  obtain ⟨node, hnode, hpath⟩ := hreached
  induction hpath with
  | refl => exact hcovers.starts node hnode
  | tail hpath hrefers ih =>
    have hedge := hcovers.edge_of_refers hagrees ⟨node, hnode, hpath⟩ hrefers ih
    exact (hcovers.edge_met _ _ hedge).2

/-- The edges that a search from one of the nodes goes along are covered. -/
theorem CoversNames.edge_of_keyEdge {node : Site} (hnode : node ∈ nodes) {a b : String}
    (h : Graph.KeyEdge Site.name (ofDocuments documents).edges node a b) : edge a b := by
  obtain ⟨site, target, hpath, hrefers, rfl, rfl⟩ := h
  have hreached : (ofDocuments documents).ReachedFrom nodes site := ⟨node, hnode, hpath⟩
  exact hcovers.edge_of_refers hagrees hreached hrefers (hcovers.met_of_reached hagrees hreached)

end Agreement

/-- A ring that a search from one of some nodes finds lies in one of the cycles from all of them. -/
theorem exists_cycle_of_findCycle? {documents : List Document} {nodes : List Site}
    (hnodes : ∀ node ∈ nodes, Declared documents node)
    (hagrees : (ofDocuments documents).AgreesOnNames nodes) {node : Site} (hnode : node ∈ nodes)
    {ring : List String} (h : (ofDocuments documents).findCycle? node = some ring) :
    ∃ cycle ∈ (ofDocuments documents).cycles nodes, ring ⊆ cycle := by
  obtain ⟨edge, met, hcovers, hcycles⟩ := exists_covers hnodes
  have hring : Graph.IsRing edge ring := by
    obtain ⟨first, between, heq, hnodup, hchain⟩ := Graph.isRing_of_findCycle? h
    exact ⟨first, between, heq, hnodup,
      hchain.imp fun _ _ => hcovers.edge_of_keyEdge hagrees hnode⟩
  obtain ⟨first, hfirst, ⟨second, hedge⟩, hon⟩ := hring.exists_onCycle
  obtain ⟨cycle, hmem, hname⟩ := hcycles.covers first (hcovers.edge_met _ _ hedge).1 hon
  refine ⟨cycle, hmem, fun name hring' => ?_⟩
  rw [(hcycles.isComponent cycle hmem).mem_iff hname]
  exact ⟨hring.reflTransGen hfirst hring', hring.reflTransGen hring' hfirst⟩

/-- **A cycle that silences a rule is reported.** Where declarations of one name refer to the same
names, any cycle that the search from a declaration of a document finds lies in one of the cycles of
the document. -/
theorem exists_cycle_of_hasCycle (documents : List Document) {document : Document}
    (hdocument : document ∈ documents)
    (hagrees : (ofDocuments documents).AgreesOnNames ((ofDocuments documents).typesOf document))
    {element : Element} (helement : element ∈ document.elements) {decl : TypeDecl}
    (hdecl : decl ∈ element.types)
    (h : (ofDocuments documents).hasCycle
      ((ofDocuments documents).ownerOf document element decl) = true) :
    ∃ ring, (ofDocuments documents).findCycle?
        ((ofDocuments documents).ownerOf document element decl) = some ring ∧
      ∃ cycle ∈ (ofDocuments documents).cycles ((ofDocuments documents).typesOf document),
        ring ⊆ cycle := by
  obtain ⟨ring, hring⟩ := Option.isSome_iff_exists.mp h
  exact ⟨ring, hring, exists_cycle_of_findCycle? (declared_of_mem_typesOf hdocument) hagrees
    (mem_typesOf_iff.mpr ⟨element, helement, decl, hdecl, rfl⟩) hring⟩

/-! ## Two declarations of one name -/

/-- A map of a type called `A`. -/
def mapOfA : TypeDecl :=
  { name := "M", body := .map { derived := some "A" } { derived := some "A" } }

/-- A type collection with an alias `A` of the map. -/
def aliasCollection : TypeCollection :=
  { name := "T", types := [{ name := "A", body := .synonym { derived := some "M" } }, mapOfA] }

/-- The map and the alias lead to each other. Another type collection of the same name declares an
array `A` of the map. -/
def twinDocument : Document :=
  { package := "p", sourcePath := "/p.fidl",
    typeCollections := [
      { name := "T", types := [{ name := "A", body := .array { derived := some "T.M" } }] },
      aliasCollection] }

/-- The alias and the array refer to the same name. -/
theorem agreesOnNames_twinDocument :
    (ofDocuments [twinDocument]).AgreesOnNames
      ((ofDocuments [twinDocument]).typesOf twinDocument) := by
  have htypes : (ofDocuments [twinDocument]).typesOf twinDocument = twinDocument.sites := by
    decide +kernel
  rw [htypes]
  have hall : (twinDocument.sites.all fun site => twinDocument.sites.all fun other =>
      site.name != other.name || ((ofDocuments [twinDocument]).edges site).all fun target =>
        ((ofDocuments [twinDocument]).edges other).any (·.name == target.name)) = true := by
    decide +kernel
  have hsites : ∀ site, (ofDocuments [twinDocument]).ReachedFrom twinDocument.sites site →
      site ∈ twinDocument.sites := by
    rintro site ⟨node, hnode, hpath⟩
    have hdeclared : Declared [twinDocument] node :=
      List.mem_flatMap.mpr ⟨_, List.mem_cons_self, hnode⟩
    obtain ⟨_, hmem, hsite⟩ := List.mem_flatMap.mp (declared_of_reaches hdeclared hpath)
    rwa [List.mem_singleton.mp hmem] at hsite
  intro site other hsite hother heq target hrefers
  rw [List.all_eq_true] at hall
  have hpair := List.all_eq_true.mp (hall site (hsites site hsite)) other (hsites other hother)
  rw [heq, bne_self_eq_false, Bool.false_or, List.all_eq_true] at hpair
  obtain ⟨target', htarget', hname⟩ := List.any_eq_true.mp (hpair target hrefers)
  exact ⟨target', htarget', beq_iff_eq.mp hname⟩

/-- So the cycle of the map is reported. -/
theorem exists_cycle_twinDocument :
    twinDocument ∈ [twinDocument] ∧
    (ofDocuments [twinDocument]).AgreesOnNames
      ((ofDocuments [twinDocument]).typesOf twinDocument) ∧
    .collection aliasCollection ∈ twinDocument.elements ∧ mapOfA ∈ aliasCollection.types ∧
    (ofDocuments [twinDocument]).hasCycle ((ofDocuments [twinDocument]).ownerOf twinDocument
      (.collection aliasCollection) mapOfA) = true ∧
    ∃ ring, (ofDocuments [twinDocument]).findCycle? ((ofDocuments [twinDocument]).ownerOf
        twinDocument (.collection aliasCollection) mapOfA) = some ring ∧
      ∃ cycle ∈ (ofDocuments [twinDocument]).cycles
        ((ofDocuments [twinDocument]).typesOf twinDocument), ring ⊆ cycle := by
  have helement : .collection aliasCollection ∈ twinDocument.elements := by decide
  have hdecl : mapOfA ∈ aliasCollection.types := by decide
  have hcycle : (ofDocuments [twinDocument]).hasCycle ((ofDocuments [twinDocument]).ownerOf
      twinDocument (.collection aliasCollection) mapOfA) = true := by decide +kernel
  exact ⟨List.mem_cons_self, agreesOnNames_twinDocument, helement, hdecl, hcycle,
    exists_cycle_of_hasCycle [twinDocument] List.mem_cons_self agreesOnNames_twinDocument helement
      hdecl hcycle⟩

/-- A type collection with a struct `A` of its own type and a map of it. -/
def loopCollection : TypeCollection :=
  { name := "T",
    types := [
      { name := "A", body := .struct [{ name := "next", type := { derived := some "A" } }] none },
      mapOfA] }

/-- Another type collection of the same name declares an empty struct `A`. -/
def echoDocument : Document :=
  { package := "p", sourcePath := "/p.fidl",
    typeCollections := [
      { name := "T", types := [{ name := "A", body := .struct [] none }] }, loopCollection] }

/-- **A cycle that silences a rule may go unreported.** The map leads to a cycle, so the rule on map
keys is silent. The empty struct stands for both structs, so no cycle is reported either. -/
theorem echo_is_silent :
    .collection loopCollection ∈ echoDocument.elements ∧ mapOfA ∈ loopCollection.types ∧
    (ofDocuments [echoDocument]).hasCycle ((ofDocuments [echoDocument]).ownerOf echoDocument
      (.collection loopCollection) mapOfA) = true ∧
    (ofDocuments [echoDocument]).cycles ((ofDocuments [echoDocument]).typesOf echoDocument) = [] ∧
    Rule.mapKeys echoDocument (ofDocuments [echoDocument]) = [] ∧
    Rule.typeCycles echoDocument (ofDocuments [echoDocument]) = [] ∧
    Rule.danglingReferences echoDocument (ofDocuments [echoDocument]) = [] :=
  ⟨by decide, by decide, by decide +kernel, by decide +kernel, by decide +kernel,
    by decide +kernel, by decide +kernel⟩

end TypeScope

end FrancaLint
