import FrancaLint.Proofs.Graph.Rings
import FrancaLint.Proofs.TypeScope.Cycles
import FrancaLint.Rule.TypeCycle
import Mathlib.Data.List.TakeWhile

/-! # Reported cycles

Cycles come in the order in which a walk completes them, and their members in the order in which it
discovers them. The rule turns each of them so that it starts with the member that the document
declares first.

* `IsFirstOfCycle`, the declarations where cycles are reported, and `ReportsComponent`, what is
  reported there; `typeCycles_report_components`: every cycle of the document is reported once.
* `NameRefers`, references between names; `chain_of_typeCycles`: the chain that a message shows goes
  along references where its names refer to one of them each.
* `shortcut_breaks_chain`: otherwise it may go from a name to one that it does not refer to. -/

namespace FrancaLint

open Relation

/-! ## Turned cycles -/

namespace Rule

/-- Sites with different names are the last ones of their names. -/
theorem lastOfEachName_eq_self {sites : List Site} (h : (sites.map Site.name).Nodup) :
    lastOfEachName sites = sites := by
  induction sites with
  | nil => rfl
  | cons site rest ih =>
    rw [List.map_cons, List.nodup_cons] at h
    have hnew : rest.any (·.name == site.name) = false := by
      rw [List.any_eq_false]
      intro other hother heq
      exact h.1 (List.mem_map.mpr ⟨other, hother, by simpa using heq⟩)
    rw [lastOfEachName, hnew, ih h.2]
    rfl

/-- A cycle is read from one of its names on, then up to it, and back to it. -/
theorem exists_ring_eq {cycle : List String} {first : String} (h : first ∈ cycle) :
    ∃ front back, cycle = front ++ first :: back ∧
      ring cycle first = first :: (back ++ front ++ [first]) := by
  have hne : cycle.dropWhile (· != first) ≠ [] := by
    rw [ne_eq, List.dropWhile_eq_nil_iff]
    exact fun hall => by simpa using hall first h
  obtain ⟨next, back, hdrop⟩ := List.exists_cons_of_ne_nil hne
  have hnext : next = first := by
    have := List.head_dropWhile_not (· != first) hne
    simpa [hdrop] using this
  rw [hnext] at hdrop
  refine ⟨cycle.takeWhile (· != first), back, ?_, ?_⟩
  · rw [← hdrop, List.takeWhile_append_dropWhile]
  · rw [ring, hdrop]
    simp

/-- A cycle is reported at the last of its names that comes first among the last ones. -/
theorem typeCycle?_eq_some {document : Document} {sites : List Site} {cycle : List String}
    {finding : Diagnostic} (h : typeCycle? document sites cycle = some finding) :
    ∃ site ∈ lastOfEachName sites, site.name ∈ cycle ∧
      finding.message = "Type definition cycle: " ++ " -> ".intercalate (ring cycle site.name) := by
  obtain ⟨site, hfound, rfl⟩ := Option.map_eq_some_iff.mp h
  exact ⟨site, List.mem_of_find?_eq_some hfound, by simpa using List.find?_some hfound, rfl⟩

end Rule

namespace TypeScope

variable {documents : List Document} {root : Document}

/-- The types of a document of the scope are declared. -/
theorem declared_of_mem_sites (hroot : root ∈ documents) :
    ∀ node ∈ root.sites, Declared documents node :=
  fun _ hnode => List.mem_flatMap.mpr ⟨root, hroot, hnode⟩

/-! ## One finding for each component -/

/-- Of its component, which is cyclic, the document declares this member **first**. -/
def IsFirstOfCycle (scope : TypeScope) (document : Document) (site : Site) : Prop :=
  scope.OnCycle site ∧ ∃ before after, document.sites = before ++ site :: after ∧
    ∀ other ∈ before, ¬ scope.SameComponent site other

/-- No component has two members that are declared first. -/
theorem IsFirstOfCycle.unique {scope : TypeScope} {site other : Site}
    (h : scope.IsFirstOfCycle root site) (hother : scope.IsFirstOfCycle root other)
    (hsame : scope.SameComponent site other) : site = other := by
  obtain ⟨-, before, after, hsplit, hbefore⟩ := h
  obtain ⟨-, before', after', hsplit', hbefore'⟩ := hother
  rcases Graph.append_eq_append_cons (hsplit.symm.trans hsplit') with
    ⟨between, rfl, hbetween⟩ | ⟨_, rfl, -⟩
  · cases between with
    | nil => exact (List.cons.inj hbetween).1
    | cons next between =>
      obtain ⟨rfl, -⟩ := List.cons.inj hbetween
      exact absurd ⟨hsame.2, hsame.1⟩ (hbefore' site (by simp))
  · exact absurd hsame (hbefore other (by simp))

/-- The finding **reports the component** of a declaration of a document: it is an error at the
declaration, and its message lists the names of all members, each of them once and that of the
declaration first, and then that of the declaration again. -/
def ReportsComponent (scope : TypeScope) (document : Document) (site : Site)
    (finding : Diagnostic) : Prop :=
  ∃ others : List String, (site.name :: others).Nodup ∧
    scope.ListsComponent site (site.name :: others) ∧
    finding = .about .error
      ("Type definition cycle: " ++ " -> ".intercalate (site.name :: (others ++ [site.name])))
      { document := document.sourcePath, element := site.path, feature := some "name" }
      site.decl.span

/-- The first type of a document that belongs to a cycle. -/
def firstOnCycle? (document : Document) (cycle : List String) : Option Site :=
  document.sites.find? fun site => cycle.contains site.name

section Unique

variable (hroot : root ∈ documents)
  (hunique : ((documents.flatMap Document.sites).map Site.name).Nodup)
include hroot hunique

/-- A cycle of the document is reported at the first of its members. -/
theorem reportsComponent_of_firstOnCycle? {cycle : List String}
    (hcycle : cycle ∈ (ofDocuments documents).cycles root.sites) {site : Site}
    (hsite : firstOnCycle? root cycle = some site) :
    (ofDocuments documents).ReportsComponent root site
      (.about .error ("Type definition cycle: " ++ " -> ".intercalate (Rule.ring cycle site.name))
        { document := root.sourcePath, element := site.path, feature := some "name" }
        site.decl.span) := by
  have hnodes := declared_of_mem_sites hroot
  have hmem : site.name ∈ cycle := by simpa using List.find?_some hsite
  obtain ⟨hlists, -⟩ := listsComponent_of_mem hunique hnodes hcycle
    ⟨site, List.mem_of_find?_eq_some hsite, .refl⟩ hmem
  obtain ⟨front, back, rfl, hring⟩ := Rule.exists_ring_eq hmem
  have hturned : (site.name :: (back ++ front)).Perm (front ++ site.name :: back) :=
    (List.perm_append_comm.cons _).trans List.perm_middle.symm
  refine ⟨back ++ front, ?_, fun name => ?_, by rw [hring]⟩
  · exact hturned.nodup_iff.mpr (nodup_of_mem_cycles hnodes hcycle)
  · rw [hturned.mem_iff]
    exact hlists name

/-- The first member of a cycle of the document is the first of its component. -/
theorem isFirstOfCycle_of_firstOnCycle? {cycle : List String}
    (hcycle : cycle ∈ (ofDocuments documents).cycles root.sites) {site : Site}
    (hsite : firstOnCycle? root cycle = some site) :
    (ofDocuments documents).IsFirstOfCycle root site := by
  have hnodes := declared_of_mem_sites hroot
  have hreach : (ofDocuments documents).ReachedFrom root.sites site :=
    ⟨site, List.mem_of_find?_eq_some hsite, .refl⟩
  obtain ⟨hmem, before, after, hsplit, hbefore⟩ := List.find?_eq_some_iff_append.mp hsite
  have hname : site.name ∈ cycle := by simpa using hmem
  obtain ⟨hlists, hon⟩ := listsComponent_of_mem hunique hnodes hcycle hreach hname
  refine ⟨hon, before, after, hsplit, ?_⟩
  intro other hother hsame
  have hout : other.name ∉ cycle := by simpa using hbefore other hother
  exact hout ((hlists other.name).mpr ⟨other, hsame, rfl⟩)

/-- A type of the document that is on a cycle belongs to one of its cycles, whose first member is of
the same component. -/
theorem exists_firstOnCycle? {site : Site} (hsite : site ∈ root.sites)
    (hon : (ofDocuments documents).OnCycle site) :
    ∃ cycle ∈ (ofDocuments documents).cycles root.sites, ∃ first,
      firstOnCycle? root cycle = some first ∧ (ofDocuments documents).SameComponent site first ∧
      site.name ∈ cycle := by
  have hnodes := declared_of_mem_sites hroot
  have hreach : (ofDocuments documents).ReachedFrom root.sites site := ⟨site, hsite, .refl⟩
  obtain ⟨cycle, hcycle, hname⟩ := exists_mem_cycles hunique hnodes hreach hon
  have hsome : (firstOnCycle? root cycle).isSome := by
    rw [firstOnCycle?, List.find?_isSome]
    exact ⟨site, hsite, by simpa using hname⟩
  obtain ⟨first, hfirst⟩ := Option.isSome_iff_exists.mp hsome
  refine ⟨cycle, hcycle, first, hfirst, ?_, hname⟩
  have hmem : first.name ∈ cycle := by simpa using List.find?_some hfirst
  obtain ⟨other, hsame, heq⟩ :=
    ((listsComponent_of_mem hunique hnodes hcycle hreach hname).1 first.name).mp hmem
  have hdeclared := declared_of_reaches (hnodes site hsite) hsame.1
  have hfirst' := hnodes first (List.mem_of_find?_eq_some hfirst)
  rwa [← eq_of_name_eq hunique hdeclared hfirst' heq]

/-- The first member of a component, which is cyclic, is the first member of one of the cycles. -/
theorem exists_cycle_of_isFirstOfCycle {site : Site}
    (h : (ofDocuments documents).IsFirstOfCycle root site) :
    ∃ cycle ∈ (ofDocuments documents).cycles root.sites, firstOnCycle? root cycle = some site := by
  obtain ⟨hon, before, after, hsplit, hbefore⟩ := h
  have hsite : site ∈ root.sites := hsplit ▸ List.mem_append_right _ List.mem_cons_self
  obtain ⟨cycle, hcycle, first, hfirst, hsame, hname⟩ :=
    exists_firstOnCycle? hroot hunique hsite hon
  -- a member in front of `site` would be of the same component
  have hnone : before.find? (fun other => cycle.contains other.name) = none := by
    rw [List.find?_eq_none]
    intro other hother hmem
    obtain ⟨hlists, -⟩ := listsComponent_of_mem hunique (declared_of_mem_sites hroot) hcycle
      ⟨site, hsite, .refl⟩ hname
    obtain ⟨another, hsame', heq⟩ := (hlists other.name).mp (by simpa using hmem)
    have hdeclared := declared_of_mem_sites hroot site hsite
    have hother' : other ∈ root.sites := hsplit ▸ List.mem_append_left _ hother
    obtain rfl := eq_of_name_eq hunique (declared_of_reaches hdeclared hsame'.1)
      (declared_of_mem_sites hroot other hother') heq
    exact hbefore another hother hsame'
  refine ⟨cycle, hcycle, ?_⟩
  rw [firstOnCycle?, hsplit, List.find?_append, hnone, Option.none_or,
    List.find?_cons_of_pos (by simpa using hname)]

end Unique

/-- Findings that are made for some members of a list relate to what they are made from. -/
theorem forall₂_filterMap {α β γ : Type} {pick : α → Option β} {make : α → β → γ}
    {relates : β → γ → Prop} {list : List α}
    (h : ∀ item ∈ list, ∀ picked, pick item = some picked → relates picked (make item picked)) :
    List.Forall₂ relates (list.filterMap pick)
      (list.filterMap fun item => (pick item).map (make item)) := by
  induction list with
  | nil => exact .nil
  | cons item rest ih =>
    have hrest := ih fun other hother => h other (List.mem_cons_of_mem _ hother)
    cases hpick : pick item with
    | none => simpa [hpick] using hrest
    | some picked => simpa [hpick] using ⟨h item List.mem_cons_self picked hpick, hrest⟩

/-- **Every cycle of a document is reported once.** Where no two declarations have the same name,
each error for a document reports the component of another one of its types. These are the types
that it declares first of a cyclic component, and every type of the document that is on a cycle
shares its component with exactly one of them. -/
theorem typeCycles_report_components (documents : List Document) {root : Document}
    (hroot : root ∈ documents)
    (hunique : ((documents.flatMap Document.sites).map Site.name).Nodup) :
    let scope := ofDocuments documents
    ∃ anchors : List Site,
      List.Forall₂ (scope.ReportsComponent root) anchors (Rule.typeCycles root scope) ∧
      anchors.Nodup ∧ (∀ site, site ∈ anchors ↔ scope.IsFirstOfCycle root site) ∧
      ∀ site ∈ root.sites, scope.OnCycle site →
        ∃! anchor, anchor ∈ anchors ∧ scope.SameComponent site anchor := by
  intro scope
  have hnodes := declared_of_mem_sites hroot
  have hlast : Rule.lastOfEachName root.sites = root.sites := by
    refine Rule.lastOfEachName_eq_self (List.Nodup.sublist ?_ hunique)
    exact (List.sublist_flatten_of_mem (List.mem_map_of_mem hroot)).map _
  have hmem : ∀ site, site ∈ (scope.cycles root.sites).filterMap (firstOnCycle? root) ↔
      scope.IsFirstOfCycle root site := by
    intro site
    rw [List.mem_filterMap]
    constructor
    · rintro ⟨cycle, hcycle, hsite⟩
      exact isFirstOfCycle_of_firstOnCycle? hroot hunique hcycle hsite
    · exact exists_cycle_of_isFirstOfCycle hroot hunique
  refine ⟨(scope.cycles root.sites).filterMap (firstOnCycle? root), ?_, ?_, hmem, ?_⟩
  · unfold Rule.typeCycles Rule.typeCycle?
    rw [typesOf_eq_sites hunique hroot, hlast]
    exact forall₂_filterMap fun cycle hcycle site hsite =>
      reportsComponent_of_firstOnCycle? hroot hunique hcycle hsite
  · -- different cycles have no name in common
    refine (disjoint_cycles hnodes).filterMap _ ?_
    rintro cycle cycle' hdisjoint site hsite other hother rfl
    have hname : site.name ∈ cycle := by simpa using List.find?_some hsite
    have hname' : site.name ∈ cycle' := by simpa using List.find?_some hother
    exact hdisjoint hname hname'
  · intro site hsite hon
    obtain ⟨cycle, hcycle, first, hfirst, hsame, -⟩ :=
      exists_firstOnCycle? hroot hunique hsite hon
    have hfirst' := List.mem_filterMap.mpr ⟨cycle, hcycle, hfirst⟩
    refine ⟨first, ⟨hfirst', hsame⟩, ?_⟩
    rintro other ⟨hother, hsame'⟩
    exact ((hmem other).mp hother).unique ((hmem first).mp hfirst')
      ⟨hsame'.2.trans hsame.1, hsame.2.trans hsame'.1⟩

/-- A file with an array of a struct and a struct that have each other as their parts. -/
def chestRoot : Document :=
  { package := "p", sourcePath := "/p.fidl",
    typeCollections := [{
      name := "T",
      types := [
        { name := "Chests", body := .array { derived := some "q.U.Chest" } },
        { name := "Lid",
          body := .struct [{ name := "chest", type := { derived := some "q.U.Chest" } }] none }] }] }

/-- Another file with the other struct and a cycle of its own. -/
def chestDocuments : List Document :=
  [chestRoot,
    { package := "q", sourcePath := "/q.fidl",
      typeCollections := [{
        name := "U",
        types := [
          { name := "Chest",
            body := .struct [{ name := "lid", type := { derived := some "p.T.Lid" } }] none },
          { name := "Key", body := .synonym { derived := some "Key" } }] }] }]

/-- The cycle of the two structs is reported at the lid, though it is discovered from the chest on,
and that of the key is not reported. -/
theorem typeCycles_chest : chestRoot ∈ chestDocuments ∧
    ((chestDocuments.flatMap Document.sites).map Site.name).Nodup ∧
    ∃ lid finding, lid.path = "T.Lid" ∧
      (ofDocuments chestDocuments).cycles chestRoot.sites = [["q.U.Chest", "p.T.Lid"]] ∧
      Rule.typeCycles chestRoot (ofDocuments chestDocuments) = [finding] ∧
      finding.message = "Type definition cycle: p.T.Lid -> q.U.Chest -> p.T.Lid" ∧
      (ofDocuments chestDocuments).ReportsComponent chestRoot lid finding ∧
      ∀ site, (ofDocuments chestDocuments).IsFirstOfCycle chestRoot site ↔ site = lid := by
  have hroot : chestRoot ∈ chestDocuments := List.mem_cons_self
  have hunique : ((chestDocuments.flatMap Document.sites).map Site.name).Nodup := by decide
  obtain ⟨finding, hfindings, hmessage, helement⟩ : ∃ finding,
      Rule.typeCycles chestRoot (ofDocuments chestDocuments) = [finding] ∧
        finding.message = "Type definition cycle: p.T.Lid -> q.U.Chest -> p.T.Lid" ∧
        finding.ref.element = "T.Lid" := by
    have hfound : (Rule.typeCycles chestRoot (ofDocuments chestDocuments)).map
        (fun finding => (finding.message, finding.ref.element)) =
          [("Type definition cycle: p.T.Lid -> q.U.Chest -> p.T.Lid", "T.Lid")] := by
      decide +kernel
    obtain ⟨finding, hfinding, heq⟩ := List.map_eq_singleton_iff.mp hfound
    exact ⟨finding, hfinding, congrArg Prod.fst heq, congrArg Prod.snd heq⟩
  obtain ⟨anchors, hreports, -, hanchors, -⟩ :=
    typeCycles_report_components chestDocuments hroot hunique
  rw [hfindings] at hreports
  obtain ⟨lid, hlid, rfl⟩ : ∃ lid, (ofDocuments chestDocuments).ReportsComponent chestRoot lid
      finding ∧ anchors = [lid] := by
    cases hreports with
    | cons hlid hrest =>
      cases hrest
      exact ⟨_, hlid, rfl⟩
  have hpath : lid.path = "T.Lid" := by
    obtain ⟨others, -, -, heq⟩ := hlid
    rwa [heq] at helement
  refine ⟨hroot, hunique, lid, finding, hpath, by decide +kernel, hfindings, hmessage, hlid,
    fun site => ?_⟩
  rw [← hanchors, List.mem_singleton]

/-! ## The chain of a finding -/

/-- One name **refers** to another one: some declaration of the first name refers to one of the
second. -/
def NameRefers (documents : List Document) (name other : String) : Prop :=
  ∃ site target, Declared documents site ∧ (ofDocuments documents).Refers site target ∧
    site.name = name ∧ target.name = other

/-- References between names are found among the declarations. -/
theorem nameRefers_iff {name other : String} : NameRefers documents name other ↔
    ((documents.flatMap Document.sites).any fun site => site.name == name &&
      ((ofDocuments documents).edges site).any (·.name == other)) = true := by
  simp only [List.any_eq_true, Bool.and_eq_true, beq_iff_eq]
  constructor
  · rintro ⟨site, target, hsite, htarget, hname, hother⟩
    exact ⟨site, hsite, hname, target, htarget, hother⟩
  · rintro ⟨site, hsite, hname, target, htarget, hother⟩
    exact ⟨site, target, hsite, htarget, hname, hother⟩

section Names

variable {nodes : List Site}

/-- The edges that a search covers are references between names. -/
theorem CoversNames.nameRefers {edge : String → String → Prop} {met : String → Prop}
    (hcovers : CoversNames documents nodes edge met) {name other : String}
    (h : edge name other) : NameRefers documents name other := by
  obtain ⟨site, ⟨hsite, -⟩, hname, hedges⟩ := hcovers.stands name (hcovers.edge_met _ _ h).1
  obtain ⟨target, htarget, heq⟩ := (hedges other).mp h
  exact ⟨site, target, hsite, htarget, hname, heq⟩

variable (hnodes : ∀ node ∈ nodes, Declared documents node)
include hnodes

/-- Each name of a cycle leads to each other one and back to itself. -/
theorem transGen_of_mem_cycle {cycle : List String}
    (h : cycle ∈ (ofDocuments documents).cycles nodes) {name other : String} (hname : name ∈ cycle)
    (hother : other ∈ cycle) : TransGen (NameRefers documents) name other := by
  obtain ⟨edge, met, hcovers, hcycles⟩ := exists_covers hnodes
  obtain ⟨hto, -⟩ := ((hcycles.isComponent cycle h).mem_iff hname).mp hother
  obtain ⟨-, hon⟩ := hcycles.onCycle cycle h name hname
  exact TransGen.mono (fun _ _ => hcovers.nameRefers) _ _ (hon.transGen hto)

/-- A cycle each of whose names refers to one of them only is a ring. -/
theorem exists_isRing_of_mem_cycles {cycle : List String}
    (h : cycle ∈ (ofDocuments documents).cycles nodes)
    (hone : ∀ a ∈ cycle, ∀ b ∈ cycle, ∀ c ∈ cycle, NameRefers documents a b →
      NameRefers documents a c → b = c) :
    ∃ first others, cycle = first :: others ∧
      Graph.IsRing (NameRefers documents) (first :: (others ++ [first])) := by
  obtain ⟨edge, met, hcovers, hcycles⟩ := exists_covers hnodes
  have hcomponent := hcycles.isComponent cycle h
  have hspreads := hcycles.spreads cycle h
  obtain ⟨a, ha, -⟩ := hcomponent.2
  obtain ⟨first, others, rfl⟩ := List.exists_cons_of_ne_nil (List.ne_nil_of_mem ha)
  have hback := hcomponent.exists_edge_into List.mem_cons_self
    (hcycles.onCycle _ h first List.mem_cons_self).2
  refine ⟨first, others, rfl, ?_⟩
  have hring := hspreads.isRing hcomponent.1 (fun a ha b hb c hc hab hac =>
    hone a ha b hb c hc (hcovers.nameRefers hab) (hcovers.nameRefers hac)) hback
  exact hring.mono fun _ _ => hcovers.nameRefers

end Names

/-- **The chain that a message shows.** Every error about a cycle shows the names of a cycle, from
one of them on and back to it, and each of these names leads to all of them. Where every name of the
chain refers to one name of the chain only, the chain goes along references from each name to the
next. -/
theorem chain_of_typeCycles (documents : List Document) {root : Document}
    (hroot : root ∈ documents) {finding : Diagnostic}
    (hfinding : finding ∈ Rule.typeCycles root (ofDocuments documents)) :
    ∃ first others, let chain := first :: (others ++ [first])
      finding.message = "Type definition cycle: " ++ " -> ".intercalate chain ∧
      (first :: others).Nodup ∧
      (∀ name ∈ chain, ∀ other ∈ chain, TransGen (NameRefers documents) name other) ∧
      ((∀ a ∈ chain, ∀ b ∈ chain, ∀ c ∈ chain, NameRefers documents a b →
          NameRefers documents a c → b = c) →
        chain.IsChain (NameRefers documents)) := by
  have hnodes := declared_of_mem_typesOf hroot
  obtain ⟨cycle, hcycle, hsome⟩ := List.mem_filterMap.mp hfinding
  obtain ⟨anchor, -, hname, hmessage⟩ := Rule.typeCycle?_eq_some hsome
  obtain ⟨front, back, hsplit, hring⟩ := Rule.exists_ring_eq hname
  have hmem : ∀ name, name ∈ anchor.name :: (back ++ front ++ [anchor.name]) ↔ name ∈ cycle := by
    intro name
    simp only [hsplit, List.mem_cons, List.mem_append, List.not_mem_nil]
    grind
  refine ⟨anchor.name, back ++ front, ?_, ?_, ?_, fun hone => ?_⟩
  · rw [hmessage, hring]
  · have hnodup := nodup_of_mem_cycles hnodes hcycle
    rw [hsplit] at hnodup
    exact List.nodup_append_comm.mp hnodup
  · simp only [hmem]
    exact fun name hname other hother => transGen_of_mem_cycle hnodes hcycle hname hother
  · simp only [hmem] at hone
    obtain ⟨first, others, rfl, hisRing⟩ := exists_isRing_of_mem_cycles hnodes hcycle hone
    obtain ⟨-, -, -, -, hchain⟩ := hisRing.turn hsplit
    exact hchain

/-- In the files of the chest every declaration refers to one other only. -/
theorem eq_of_nameRefers_chest {a b c : String} (hab : NameRefers chestDocuments a b)
    (hac : NameRefers chestDocuments a c) : b = c := by
  have hall : ((chestDocuments.flatMap Document.sites).all fun site =>
      (chestDocuments.flatMap Document.sites).all fun other => site.name != other.name ||
        ((ofDocuments chestDocuments).edges site).all fun target =>
          ((ofDocuments chestDocuments).edges other).all (target.name == ·.name)) = true := by
    decide +kernel
  obtain ⟨site, target, hsite, htarget, rfl, rfl⟩ := hab
  obtain ⟨other, target', hother, htarget', heq, rfl⟩ := hac
  have hpair := List.all_eq_true.mp (List.all_eq_true.mp hall site hsite) other hother
  rw [heq, bne_self_eq_false, Bool.false_or, List.all_eq_true] at hpair
  exact beq_iff_eq.mp (List.all_eq_true.mp (hpair target htarget) target' htarget')

/-- So the chain of the lid and the chest goes along references. -/
theorem chain_chest : chestRoot ∈ chestDocuments ∧
    ∃ finding ∈ Rule.typeCycles chestRoot (ofDocuments chestDocuments), ∃ first others,
      finding.message =
        "Type definition cycle: " ++ " -> ".intercalate (first :: (others ++ [first])) ∧
      (first :: others).Nodup ∧
      (first :: (others ++ [first])).IsChain (NameRefers chestDocuments) := by
  have hroot : chestRoot ∈ chestDocuments := List.mem_cons_self
  obtain ⟨finding, hfindings⟩ : ∃ finding,
      Rule.typeCycles chestRoot (ofDocuments chestDocuments) = [finding] :=
    List.length_eq_one_iff.mp (by decide +kernel)
  have hfinding : finding ∈ Rule.typeCycles chestRoot (ofDocuments chestDocuments) := by
    rw [hfindings]
    exact List.mem_singleton_self finding
  obtain ⟨first, others, hmessage, hnodup, -, hchain⟩ :=
    chain_of_typeCycles chestDocuments hroot hfinding
  exact ⟨hroot, finding, hfinding, first, others, hmessage, hnodup,
    hchain fun _ _ _ _ _ _ => eq_of_nameRefers_chest⟩

/-- Three structs around a cycle, the first of which has the third one as a part as well. -/
def shortcutDocument : Document :=
  { package := "p", sourcePath := "/p.fidl",
    typeCollections := [{
      name := "T",
      types := [
        { name := "A",
          body := .struct [{ name := "c", type := { derived := some "C" } },
            { name := "b", type := { derived := some "B" } }] none },
        { name := "B", body := .struct [{ name := "c", type := { derived := some "C" } }] none },
        { name := "C", body := .struct [{ name := "a", type := { derived := some "A" } }] none }] }] }

/-- **A shortcut breaks the chain.** The cycle leads from the first struct to the second one, the
third one and back. The message shows the third one in front of the second one, to which it does not
refer. -/
theorem shortcut_breaks_chain :
    (∃ finding, Rule.typeCycles shortcutDocument (ofDocuments [shortcutDocument]) = [finding] ∧
      finding.message = "Type definition cycle: p.T.A -> p.T.C -> p.T.B -> p.T.A") ∧
    ["p.T.A", "p.T.B", "p.T.C", "p.T.A"].IsChain (NameRefers [shortcutDocument]) ∧
    ¬ NameRefers [shortcutDocument] "p.T.C" "p.T.B" := by
  refine ⟨?_, ?_, ?_⟩
  · exact List.map_eq_singleton_iff.mp (by decide +kernel)
  · simp only [List.isChain_cons_cons, List.isChain_singleton, nameRefers_iff, and_true]
    exact ⟨by decide +kernel, by decide +kernel, by decide +kernel⟩
  · rw [nameRefers_iff]
    decide +kernel

end TypeScope

end FrancaLint
