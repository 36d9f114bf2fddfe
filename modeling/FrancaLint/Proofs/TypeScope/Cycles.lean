import FrancaLint.Proofs.Graph.ComponentSearch
import FrancaLint.Proofs.TypeScope.Declared

/-! # Cycles of type references

The search for cycles goes from name to name, and the declaration of a name that it meets first
stands for the others. Where no two declarations have the same name, the names stand for the
declarations themselves, so the cycles of a scope are the cyclic components of its type references.

* `Refers`, `SameComponent` and `OnCycle`: the graph of type references.
* `exists_covers`: the search covers a graph of names, whose cyclic components it finds.
* `StandsFor`: that graph stands for the declarations; `exists_standsFor`.
* `cycles_are_cyclic_components`: the lists of names that a scope reports as cycles. -/

namespace FrancaLint.TypeScope

open Relation

/-! ## The graph of type references -/

/-- A declaration **refers** to another one. -/
def Refers (scope : TypeScope) (site target : Site) : Prop :=
  target ∈ scope.edges site

/-- Two declarations refer to each other, directly or through others. -/
def SameComponent (scope : TypeScope) (site other : Site) : Prop :=
  ReflTransGen scope.Refers site other ∧ ReflTransGen scope.Refers other site

/-- The component of a declaration is cyclic: it has another member or the declaration refers to
itself. -/
def OnCycle (scope : TypeScope) (site : Site) : Prop :=
  (∃ other, other ≠ site ∧ scope.SameComponent site other) ∨ scope.Refers site site

/-- The list holds the names of the component of a declaration. -/
def ListsComponent (scope : TypeScope) (site : Site) (component : List String) : Prop :=
  ∀ name, name ∈ component ↔ ∃ other, scope.SameComponent site other ∧ other.name = name

/-- Some of the nodes lead to the declaration. -/
def ReachedFrom (scope : TypeScope) (nodes : List Site) (site : Site) : Prop :=
  ∃ node ∈ nodes, ReflTransGen scope.Refers node site

variable {documents : List Document} {nodes : List Site}

/-- What can be reached from a declared site is declared. -/
theorem declared_of_reaches {site target : Site} (hsite : Declared documents site)
    (h : ReflTransGen (ofDocuments documents).Refers site target) :
    Declared documents target := by
  induction h with
  | refl => exact hsite
  | tail _ hrefers ih => exact declared_of_mem_edges ih hrefers

/-- What declared sites lead to is declared. -/
theorem ReachedFrom.declared (hnodes : ∀ node ∈ nodes, Declared documents node) {site : Site}
    (h : (ofDocuments documents).ReachedFrom nodes site) : Declared documents site := by
  obtain ⟨node, hnode, hpath⟩ := h
  exact declared_of_reaches (hnodes node hnode) hpath

/-! ## The search -/

/-- The search for cycles **covers** some edges between the names that it has met. -/
def CoversNames (documents : List Document) (nodes : List Site) (edge : String → String → Prop)
    (met : String → Prop) : Prop :=
  Graph.Covers Site.name (ofDocuments documents).edges (fun site => Declared documents site ∧
    (ofDocuments documents).ReachedFrom nodes site) nodes edge met

/-- The cycles of a scope are the cyclic components of the names that its search covers. -/
theorem exists_covers (hnodes : ∀ node ∈ nodes, Declared documents node) :
    ∃ edge met, CoversNames documents nodes edge met ∧
      Graph.CyclicComponents edge met ((ofDocuments documents).cycles nodes) := by
  have hkeys : ∀ site, Declared documents site ∧ (ofDocuments documents).ReachedFrom nodes site →
      site.name ∈ (ofDocuments documents).types.map Prod.fst :=
    fun site hsite => name_mem_of_declared hsite.1
  refine Graph.exists_cyclicComponents ?_ hkeys ?_ ?_
  · rintro site ⟨hsite, node, hnode, hpath⟩ target htarget
    exact ⟨declared_of_mem_edges hsite htarget, node, hnode, hpath.tail htarget⟩
  · rw [List.length_map, depth]
    omega
  · exact fun node hnode => ⟨hnodes node hnode, node, hnode, .refl⟩

/-- No cycle lists a name twice. -/
theorem nodup_of_mem_cycles (hnodes : ∀ node ∈ nodes, Declared documents node)
    {cycle : List String} (h : cycle ∈ (ofDocuments documents).cycles nodes) : cycle.Nodup := by
  obtain ⟨edge, met, -, hcycles⟩ := exists_covers hnodes
  exact (hcycles.isComponent cycle h).1

/-- No two cycles share a name. -/
theorem disjoint_cycles (hnodes : ∀ node ∈ nodes, Declared documents node) :
    ((ofDocuments documents).cycles nodes).Pairwise List.Disjoint := by
  obtain ⟨edge, met, -, hcycles⟩ := exists_covers hnodes
  exact hcycles.disjoint

/-! ## Names that stand for declarations -/

/-- Some names and the edges between them **stand for** the declarations that some nodes lead to and
their references. -/
structure StandsFor (documents : List Document) (nodes : List Site)
    (edge : String → String → Prop) (met : String → Prop) : Prop where
  /-- The names are those of the declarations. -/
  met_iff : ∀ name, met name ↔
    ∃ site, (ofDocuments documents).ReachedFrom nodes site ∧ site.name = name
  /-- The edges are those of the declarations. -/
  edge_iff : ∀ site, (ofDocuments documents).ReachedFrom nodes site → ∀ name,
    edge site.name name ↔ ∃ target, (ofDocuments documents).Refers site target ∧ target.name = name

/-- A name leads to the names of what its declaration leads to. -/
theorem StandsFor.leads_iff {edge : String → String → Prop} {met : String → Prop}
    (h : StandsFor documents nodes edge met) {site : Site}
    (hreached : (ofDocuments documents).ReachedFrom nodes site) {name : String} :
    ReflTransGen edge site.name name ↔
      ∃ target, ReflTransGen (ofDocuments documents).Refers site target ∧ target.name = name := by
  obtain ⟨node, hnode, hnodePath⟩ := hreached
  constructor
  · intro hpath
    induction hpath with
    | refl => exact ⟨site, .refl, rfl⟩
    | tail _ hedge ih =>
      obtain ⟨middle, hmiddle, rfl⟩ := ih
      obtain ⟨target, hrefers, htarget⟩ :=
        (h.edge_iff middle ⟨node, hnode, hnodePath.trans hmiddle⟩ _).mp hedge
      exact ⟨target, hmiddle.tail hrefers, htarget⟩
  · rintro ⟨target, hpath, rfl⟩
    induction hpath with
    | refl => exact .refl
    | @tail middle last hmiddle hrefers ih =>
      exact ih.tail ((h.edge_iff middle ⟨node, hnode, hnodePath.trans hmiddle⟩ _).mpr
        ⟨last, hrefers, rfl⟩)

section Unique

variable (hunique : ((documents.flatMap Document.sites).map Site.name).Nodup)
  (hnodes : ∀ node ∈ nodes, Declared documents node)
include hunique

/-- Declared sites with one name are the same. -/
theorem eq_of_name_eq {site other : Site} (hsite : Declared documents site)
    (hother : Declared documents other) (h : site.name = other.name) : site = other :=
  List.inj_on_of_nodup_map hunique hsite hother h

include hnodes

/-- Where no two declarations have the same name, the names that a search covers stand for the
declarations. -/
theorem CoversNames.standsFor {edge : String → String → Prop} {met : String → Prop}
    (hcovers : CoversNames documents nodes edge met) : StandsFor documents nodes edge met := by
  have hedge : ∀ site, (ofDocuments documents).ReachedFrom nodes site → met site.name → ∀ name,
      edge site.name name ↔
        ∃ target, (ofDocuments documents).Refers site target ∧ target.name = name := by
    intro site hreached hmet
    obtain ⟨other, ⟨hother, -⟩, hname, hedges⟩ := hcovers.stands site.name hmet
    obtain rfl := eq_of_name_eq hunique hother (hreached.declared hnodes) hname
    exact hedges
  have hmet : ∀ site, (ofDocuments documents).ReachedFrom nodes site → met site.name := by
    rintro site ⟨node, hnode, hpath⟩
    induction hpath with
    | refl => exact hcovers.starts node hnode
    | @tail middle last hpath hrefers ih =>
      exact (hcovers.edge_met _ _
        ((hedge middle ⟨node, hnode, hpath⟩ ih last.name).mpr ⟨last, hrefers, rfl⟩)).2
  constructor
  case met_iff =>
    intro name
    constructor
    · intro hname
      obtain ⟨site, ⟨-, hreached⟩, hkey, -⟩ := hcovers.stands name hname
      exact ⟨site, hreached, hkey⟩
    · rintro ⟨site, hreached, rfl⟩
      exact hmet site hreached
  case edge_iff =>
    exact fun site hreached => hedge site hreached (hmet site hreached)

/-- The component of a name holds the names of the component of its declaration. -/
theorem StandsFor.mutual_iff {edge : String → String → Prop} {met : String → Prop}
    (h : StandsFor documents nodes edge met) {site : Site}
    (hreached : (ofDocuments documents).ReachedFrom nodes site) {name : String} :
    Graph.Mutual edge site.name name ↔
      ∃ other, (ofDocuments documents).SameComponent site other ∧ other.name = name := by
  have hother : ∀ {other}, ReflTransGen (ofDocuments documents).Refers site other →
      (ofDocuments documents).ReachedFrom nodes other := by
    intro other hpath
    obtain ⟨node, hnode, hnodePath⟩ := hreached
    exact ⟨node, hnode, hnodePath.trans hpath⟩
  constructor
  · rintro ⟨hto, hfrom⟩
    obtain ⟨other, hpath, rfl⟩ := (h.leads_iff hreached).mp hto
    -- the way back ends at a declaration with the name of `site`, which is `site` itself
    obtain ⟨back, hback, heq⟩ := (h.leads_iff (hother hpath)).mp hfrom
    obtain rfl := eq_of_name_eq hunique
      (declared_of_reaches ((hother hpath).declared hnodes) hback) (hreached.declared hnodes) heq
    exact ⟨other, ⟨hpath, hback⟩, rfl⟩
  · rintro ⟨other, ⟨hpath, hback⟩, rfl⟩
    exact ⟨(h.leads_iff hreached).mpr ⟨other, hpath, rfl⟩,
      (h.leads_iff (hother hpath)).mpr ⟨site, hback, rfl⟩⟩

/-- A name is on a cycle when its declaration is. -/
theorem StandsFor.onCycle_iff {edge : String → String → Prop} {met : String → Prop}
    (h : StandsFor documents nodes edge met) {site : Site}
    (hreached : (ofDocuments documents).ReachedFrom nodes site) :
    Graph.OnCycle edge site.name ↔ (ofDocuments documents).OnCycle site := by
  have hsite := hreached.declared hnodes
  unfold Graph.OnCycle OnCycle
  constructor
  · rintro (⟨name, hne, hmutual⟩ | hedge)
    · obtain ⟨other, hsame, rfl⟩ := (h.mutual_iff hunique hnodes hreached).mp hmutual
      exact Or.inl ⟨other, fun heq => hne (by rw [heq]), hsame⟩
    · obtain ⟨target, hrefers, heq⟩ := (h.edge_iff site hreached _).mp hedge
      obtain rfl := eq_of_name_eq hunique (declared_of_mem_edges hsite hrefers) hsite heq
      exact Or.inr hrefers
  · rintro (⟨other, hne, hsame⟩ | hrefers)
    · have hother := declared_of_reaches hsite hsame.1
      refine Or.inl ⟨other.name, fun heq => hne (eq_of_name_eq hunique hother hsite heq), ?_⟩
      exact (h.mutual_iff hunique hnodes hreached).mpr ⟨other, hsame, rfl⟩
    · exact Or.inr ((h.edge_iff site hreached _).mpr ⟨site, hrefers, rfl⟩)

/-- **The names stand for the declarations** where no two of these have the same name, and the
cycles of a scope are the cyclic components of such names. -/
theorem exists_standsFor :
    ∃ edge met, StandsFor documents nodes edge met ∧
      Graph.CyclicComponents edge met ((ofDocuments documents).cycles nodes) := by
  obtain ⟨edge, met, hcovers, hcycles⟩ := exists_covers hnodes
  exact ⟨edge, met, hcovers.standsFor hunique hnodes, hcycles⟩

/-- A cycle lists the component of every declaration whose name it holds, and that declaration is on
a cycle. -/
theorem listsComponent_of_mem {component : List String}
    (hmem : component ∈ (ofDocuments documents).cycles nodes) {site : Site}
    (hreached : (ofDocuments documents).ReachedFrom nodes site)
    (hname : site.name ∈ component) :
    (ofDocuments documents).ListsComponent site component ∧
      (ofDocuments documents).OnCycle site := by
  obtain ⟨edge, met, hstands, hcycles⟩ := exists_standsFor hunique hnodes
  refine ⟨fun name => ?_, ?_⟩
  · rw [(hcycles.isComponent component hmem).mem_iff hname,
      hstands.mutual_iff hunique hnodes hreached]
  · exact (hstands.onCycle_iff hunique hnodes hreached).mp
      (hcycles.onCycle component hmem site.name hname).2

/-- A declaration that is on a cycle has its name in one of the cycles. -/
theorem exists_mem_cycles {site : Site}
    (hreached : (ofDocuments documents).ReachedFrom nodes site)
    (hon : (ofDocuments documents).OnCycle site) :
    ∃ component ∈ (ofDocuments documents).cycles nodes, site.name ∈ component := by
  obtain ⟨edge, met, hstands, hcycles⟩ := exists_standsFor hunique hnodes
  exact hcycles.covers site.name ((hstands.met_iff _).mpr ⟨site, hreached, rfl⟩)
    ((hstands.onCycle_iff hunique hnodes hreached).mpr hon)

end Unique

/-! ## The reported cycles -/

/-- **The cycles of a scope are its cyclic components.** Where no two declarations have the same
name, the cycles reported from some declarations are the cyclic components that these lead to. Each
component is reported once and lists each of its members once, and none leads to a later one. -/
theorem cycles_are_cyclic_components (documents : List Document) (nodes : List Site)
    (hunique : ((documents.flatMap Document.sites).map Site.name).Nodup)
    (hnodes : ∀ node ∈ nodes,
      (∃ document ∈ documents, ∃ element ∈ document.elements, ∃ decl ∈ element.types,
        node = (ofDocuments documents).ownerOf document element decl) ∨
      ∃ name, (ofDocuments documents).lookup name = some node) :
    let scope := ofDocuments documents
    let reached := fun site => ∃ node ∈ nodes, ReflTransGen scope.Refers node site
    (∀ component ∈ scope.cycles nodes, component.Nodup ∧
      ∃ site, reached site ∧ scope.OnCycle site ∧ scope.ListsComponent site component) ∧
    (scope.cycles nodes).Nodup ∧
    (∀ site, reached site → scope.OnCycle site →
      ∃! component, component ∈ scope.cycles nodes ∧ scope.ListsComponent site component) ∧
    (scope.cycles nodes).Pairwise fun earlier later =>
      ∀ site other, scope.ListsComponent site earlier → scope.ListsComponent other later →
        reached site → reached other → ¬ ReflTransGen scope.Refers site other := by
  intro scope reached
  have hdeclared : ∀ node ∈ nodes, Declared documents node := by
    intro node hnode
    rcases hnodes node hnode with ⟨document, hdocument, element, helement, decl, hdecl, rfl⟩ |
      ⟨name, hlookup⟩
    · exact declared_ownerOf hdocument helement hdecl
    · exact (declared_of_lookup hlookup).1
  obtain ⟨edge, met, hstands, hcycles⟩ := exists_standsFor hunique hdeclared
  have hself : ∀ {site component}, scope.ListsComponent site component →
      site.name ∈ component :=
    fun hlists => (hlists _).mpr ⟨_, ⟨.refl, .refl⟩, rfl⟩
  have hsites : ∀ component ∈ scope.cycles nodes, ∃ site, reached site ∧ scope.OnCycle site ∧
      scope.ListsComponent site component := by
    intro component hmem
    obtain ⟨-, name, hname, -⟩ := hcycles.isComponent component hmem
    obtain ⟨hmet, -⟩ := hcycles.onCycle component hmem name hname
    obtain ⟨site, hreached, rfl⟩ := (hstands.met_iff name).mp hmet
    obtain ⟨hlists, hon⟩ := listsComponent_of_mem hunique hdeclared hmem hreached hname
    exact ⟨site, hreached, hon, hlists⟩
  refine ⟨?_, ?_, ?_, ?_⟩
  · exact fun component hmem => ⟨(hcycles.isComponent component hmem).1, hsites component hmem⟩
  · -- no cycle is empty, so disjoint cycles differ
    refine hcycles.disjoint.imp_of_mem ?_
    intro earlier later hearlier _ hpair heq
    obtain ⟨site, -, -, hlists⟩ := hsites earlier hearlier
    exact hpair (hself hlists) (heq ▸ hself hlists)
  · intro site hreached hon
    obtain ⟨component, hmem, hname⟩ := exists_mem_cycles hunique hdeclared hreached hon
    obtain ⟨hlists, -⟩ := listsComponent_of_mem hunique hdeclared hmem hreached hname
    refine ⟨component, ⟨hmem, hlists⟩, ?_⟩
    -- two cycles that list the same component share the name of `site`
    rintro other ⟨hother, hlists'⟩
    by_contra hne
    have : Std.Symm (@List.Disjoint String) := ⟨fun _ _ h _ hx hy => h hy hx⟩
    exact hcycles.disjoint.forall hother hmem hne (hself hlists') hname
  · refine hcycles.pairwise.imp ?_
    intro earlier later hpair site other hearlier hlater hreached _ hpath
    exact hpair site.name (hself hearlier) other.name (hself hlater)
      ((hstands.leads_iff hreached).mpr ⟨other, hpath, rfl⟩)

/-- Two synonyms of each other and a struct with a field of its own type. -/
def ringDocument : Document :=
  { package := "p", sourcePath := "/p.fidl",
    typeCollections := [{
      name := "T",
      types := [
        { name := "A", body := .synonym { derived := some "B" } },
        { name := "B", body := .synonym { derived := some "p.T.A" } },
        { name := "S",
          body := .struct [{ name := "next", type := { derived := some "S" } }] none }] }] }

/-- The two synonyms are one of the reported cycles. -/
theorem cycles_ring : (([ringDocument].flatMap Document.sites).map Site.name).Nodup ∧
    (∀ node ∈ (ofDocuments [ringDocument]).typesOf ringDocument,
      (∃ document ∈ [ringDocument], ∃ element ∈ document.elements, ∃ decl ∈ element.types,
        node = (ofDocuments [ringDocument]).ownerOf document element decl) ∨
      ∃ name, (ofDocuments [ringDocument]).lookup name = some node) ∧
    ((ofDocuments [ringDocument]).cycles
      ((ofDocuments [ringDocument]).typesOf ringDocument)).Nodup ∧
    (ofDocuments [ringDocument]).cycles ((ofDocuments [ringDocument]).typesOf ringDocument) =
      [["p.T.A", "p.T.B"], ["p.T.S"]] := by
  have hunique : (([ringDocument].flatMap Document.sites).map Site.name).Nodup := by decide
  have hnodes : ∀ node ∈ (ofDocuments [ringDocument]).typesOf ringDocument,
      (∃ document ∈ [ringDocument], ∃ element ∈ document.elements, ∃ decl ∈ element.types,
        node = (ofDocuments [ringDocument]).ownerOf document element decl) ∨
      ∃ name, (ofDocuments [ringDocument]).lookup name = some node := by
    intro node hnode
    exact Or.inl ⟨ringDocument, List.mem_cons_self, mem_typesOf_iff.mp hnode⟩
  obtain ⟨-, hnodup, -, -⟩ := cycles_are_cyclic_components [ringDocument]
    ((ofDocuments [ringDocument]).typesOf ringDocument) hunique hnodes
  exact ⟨hunique, hnodes, hnodup, by decide +kernel⟩

end FrancaLint.TypeScope
