import FrancaLint.Proofs.Graph.SearchCourse
import FrancaLint.Proofs.TypeScope.Cycles

/-! # The first cycle of type references

The search for a cycle of type references may start at any declaration, also at one of a document
that the scope does not hold. It comes to an end all the same: from such a declaration it meets the
types declared beside it and those of the scope, and nothing else.

* `InSight`, what a search from a declaration can meet; `InSight.of_mem_edges`, it cannot leave it.
* `exists_searched_findCycle?`: the bound on the depth of a search never cuts it short.
* `findCycle?_spec`: what it means that a search finds a cycle, or none. -/

namespace FrancaLint.TypeScope

open Relation

variable {documents : List Document} {start : Site}

/-! ## What a search can meet -/

/-- The places of the types that are declared beside a declaration: its element and the anonymous
type collections of its document. -/
def besides (start : Site) : List (Document × Element) :=
  (start.document, start.element) :: anonymousElements start.document

/-- A site is **in sight** of a declaration: it is that declaration, or declared by one of the
documents or beside the declaration. -/
inductive InSight (documents : List Document) (start : Site) : Site → Prop where
  /-- The declaration itself. -/
  | self : InSight documents start start
  /-- A declared site. -/
  | declared {site : Site} (h : Declared documents site) : InSight documents start site
  /-- The site of a type beside the declaration, at its own place. -/
  | beside {place : Document × Element} {decl : TypeDecl} (hplace : place ∈ besides start)
      (hdecl : decl ∈ place.2.types) : InSight documents start (Site.of place.1 place.2 decl)

/-- A place beside a declaration is in its document. -/
theorem eq_of_mem_besides {place : Document × Element} (h : place ∈ besides start) :
    place.1 = start.document := by
  rcases List.mem_cons.mp h with rfl | h
  · rfl
  · obtain ⟨collection, -, rfl⟩ := List.mem_map.mp h
    rfl

/-- What is in sight of a declaration is declared or stands beside it. -/
theorem InSight.place {site : Site} (h : InSight documents start site) :
    DeclaredIn documents (site.document, site.element) ∨
      (site.document, site.element) ∈ besides start := by
  cases h with
  | self => exact Or.inr List.mem_cons_self
  | declared h => exact Or.inl h.place
  | beside hplace _ => exact Or.inr hplace

/-- A declaration beside one is in sight, wherever it stands. -/
theorem inSight_ownerOf {place : Document × Element} {decl : TypeDecl}
    (hplace : place ∈ besides start) (hdecl : decl ∈ place.2.types) :
    InSight documents start ((ofDocuments documents).ownerOf place.1 place.2 decl) := by
  rcases ownerOf_cases (ofDocuments documents) place.1 place.2 decl with heq | ⟨-, -, hlookup⟩
  · rw [heq]
    exact .beside hplace hdecl
  · exact .declared (declared_of_lookup hlookup).1

/-- What a reference beside a declaration means is in sight. -/
theorem inSight_of_resolve {ref : TypeRef} {document : Document} {element : Element} {site : Site}
    (hplace : (document, element) ∈ besides start)
    (h : (ofDocuments documents).resolve ref document element = some site) :
    InSight documents start site := by
  rcases found_of_resolve h with ⟨name, hlookup⟩ | ⟨place, hnear, decl, hdecl, rfl⟩
  · exact .declared (declared_of_lookup hlookup).1
  rcases List.mem_append.mp hnear with hnear | hnear
  · rcases eq_or_declaredIn_of_mem_baseChain hnear with rfl | hdeclared
    · exact inSight_ownerOf hplace hdecl
    · exact .declared (declared_ownerOf hdeclared.1 hdeclared.2 hdecl)
  · obtain rfl : document = start.document := eq_of_mem_besides hplace
    exact inSight_ownerOf (List.mem_cons_of_mem _ hnear) hdecl

/-- What a declaration in sight refers to is in sight. -/
theorem InSight.of_mem_edges {site target : Site} (hsite : InSight documents start site)
    (h : target ∈ (ofDocuments documents).edges site) : InSight documents start target := by
  obtain ⟨ref, -, hresolve⟩ := List.mem_filterMap.mp h
  rcases hsite.place with hplace | hplace
  · exact .declared (declared_of_resolve hplace hresolve)
  · exact inSight_of_resolve hplace hresolve

/-! ## The depth of a search -/

/-- The names of the sites that are in sight of a declaration. -/
def namesInSight (scope : TypeScope) (start : Site) : Finset String :=
  (start.name :: (scope.types.map Prod.fst ++
    (start.element.types.map (start.document.typeName start.element) ++
      start.document.sites.map Site.name))).toFinset

/-- There is room for these names on a path from the declaration. -/
theorem card_namesInSight_le {scope : TypeScope} :
    (scope.namesInSight start).card ≤ scope.depthFrom start := by
  refine (List.toFinset_card_le _).trans ?_
  simp only [List.length_cons, List.length_append, List.length_map, Document.sites, depthFrom,
    depth]
  omega

/-- The name of a site in sight is among them. -/
theorem InSight.name_mem {site : Site} (h : InSight documents start site) :
    site.name ∈ (ofDocuments documents).namesInSight start := by
  unfold namesInSight
  simp only [List.mem_toFinset, List.mem_cons, List.mem_append]
  cases h with
  | self => exact Or.inl rfl
  | declared h => exact Or.inr (Or.inl (name_mem_of_declared h))
  | @beside place decl hplace hdecl =>
    rcases List.mem_cons.mp hplace with rfl | hplace
    · exact Or.inr (Or.inr (Or.inl (List.mem_map.mpr ⟨decl, hdecl, rfl⟩)))
    · have hdeclared : DeclaredIn [start.document] place :=
        declaredIn_of_mem_anonymousElements List.mem_cons_self hplace
      have hsite : Site.of place.1 place.2 decl ∈ place.1.sites :=
        Document.mem_sites_iff.mpr ⟨_, hdeclared.2, decl, hdecl, rfl⟩
      rw [List.mem_singleton.mp hdeclared.1] at hsite ⊢
      exact Or.inr (Or.inr (Or.inr (List.mem_map.mpr ⟨_, hsite, rfl⟩)))

/-- A search takes its course to the end, and answers with the ring that it finds. -/
theorem exists_searched_findCycle? (documents : List Document) (start : Site) :
    ∃ outcome, Graph.Searched Site.name (ofDocuments documents).edges [start.name] [start.name]
        ((ofDocuments documents).edges start) outcome ∧
      ∀ ring, (ofDocuments documents).findCycle? start = some ring ↔ outcome = .error ring :=
  Graph.exists_searched_findCycle? (fun _ hsite _ htarget => InSight.of_mem_edges hsite htarget)
    (fun _ hsite => InSight.name_mem hsite) InSight.self card_namesInSight_le

/-! ## What a search finds -/

/-- **The search for a cycle of type references.** From every declaration it takes one course, which
comes to an end with the answer of the search. A list of names that it finds goes along references
between declarations of these names that the search can reach, ends where it starts and has no other
name twice. Where declarations with one name are the same, a search from one of them finds nothing
exactly if none that it can reach leads back to itself. -/
theorem findCycle?_spec (documents : List Document) (start : Site) :
    let scope := ofDocuments documents
    (∃! outcome, Graph.Searched Site.name scope.edges [start.name] [start.name]
        (scope.edges start) outcome) ∧
    (∀ ring, scope.findCycle? start = some ring ↔
      Graph.Searched Site.name scope.edges [start.name] [start.name] (scope.edges start)
        (.error ring)) ∧
    (∀ ring, scope.findCycle? start = some ring → 2 ≤ ring.length ∧
      Graph.IsRing (Graph.KeyEdge Site.name scope.edges start) ring) ∧
    (Set.InjOn Site.name {site | Declared documents site} → Declared documents start →
      (scope.findCycle? start = none ↔
        ∀ site, ReflTransGen scope.Refers start site → ¬ TransGen scope.Refers site site)) := by
  intro scope
  obtain ⟨outcome, hcourse, hanswer⟩ := exists_searched_findCycle? documents start
  have hring : ∀ ring, scope.findCycle? start = some ring →
      Graph.IsRing (Graph.KeyEdge Site.name scope.edges start) ring :=
    fun ring hfound => Graph.isRing_of_findCycle? hfound
  refine ⟨⟨outcome, hcourse, fun other hother => hother.unique hcourse⟩, fun ring => ?_,
    fun ring hfound => ⟨?_, hring ring hfound⟩, fun hunique hstart => ?_⟩
  · rw [hanswer]
    exact ⟨fun heq => heq ▸ hcourse, fun hother => hcourse.unique hother⟩
  · obtain ⟨first, between, rfl, -⟩ := hring ring hfound
    simp
  · have hdistinct : ∀ x y, Graph.ReachedBy scope.edges start x →
        Graph.ReachedBy scope.edges start y → x.name = y.name → x = y := by
      intro x y hx hy heq
      exact hunique (declared_of_reaches hstart hx) (declared_of_reaches hstart hy) heq
    constructor
    · intro hnone site hreached
      cases outcome with
      | error ring =>
        have hfound : scope.findCycle? start = some ring := (hanswer ring).mpr rfl
        exact absurd (hnone.symm.trans hfound) (Option.some_ne_none _).symm
      | ok after => exact hcourse.not_transGen hdistinct hreached
    · intro hacyclic
      rw [Option.eq_none_iff_forall_ne_some]
      intro ring hfound
      obtain ⟨site, hreached, hback⟩ := (hring ring hfound).exists_transGen hdistinct
      exact hacyclic site hreached hback

/-- An array of a struct whose field has an alias of that struct as its type, and another file with
an array of an enumeration. -/
def tailDocuments : List Document :=
  [{ package := "p", sourcePath := "/p.fidl",
     typeCollections := [{
       name := "T",
       types := [
         { name := "Nodes", body := .array { derived := some "Node" } },
         { name := "Node",
           body := .struct [{ name := "next", type := { derived := some "Link" } }] none },
         { name := "Link", body := .synonym { derived := some "p.T.Node" } }] }] },
   { package := "q", sourcePath := "/q.fidl",
     typeCollections := [{
       name := "U",
       types := [
         { name := "Colours", body := .array { derived := some "Colour" } },
         { name := "Colour", body := .enumeration [{ name := "RED" }] none }] }] }]

/-- The array of the struct leads to a declaration on a cycle, the one of the enumeration to
none. -/
theorem findCycle?_tailDocuments :
    Set.InjOn Site.name {site | Declared tailDocuments site} ∧
    ∃ nodes colours, Declared tailDocuments nodes ∧ nodes.name = "p.T.Nodes" ∧
      Declared tailDocuments colours ∧ colours.name = "q.U.Colours" ∧
      (ofDocuments tailDocuments).findCycle? nodes = some ["p.T.Node", "p.T.Link", "p.T.Node"] ∧
      (∃ site, ReflTransGen (ofDocuments tailDocuments).Refers nodes site ∧
        TransGen (ofDocuments tailDocuments).Refers site site) ∧
      ∀ site, ReflTransGen (ofDocuments tailDocuments).Refers colours site →
        ¬ TransGen (ofDocuments tailDocuments).Refers site site := by
  have hunique : Set.InjOn Site.name {site | Declared tailDocuments site} := by
    have hnames : ((tailDocuments.flatMap Document.sites).map Site.name).Nodup := by decide
    exact fun site hsite other hother heq => eq_of_name_eq hnames hsite hother heq
  obtain ⟨nodes, hnodes, hring⟩ :
      ∃ nodes, (ofDocuments tailDocuments).lookup "p.T.Nodes" = some nodes ∧
        (ofDocuments tailDocuments).findCycle? nodes =
          some ["p.T.Node", "p.T.Link", "p.T.Node"] := ⟨_, rfl, by decide +kernel⟩
  obtain ⟨colours, hcolours, hnone⟩ :
      ∃ colours, (ofDocuments tailDocuments).lookup "q.U.Colours" = some colours ∧
        (ofDocuments tailDocuments).findCycle? colours = none := ⟨_, rfl, by decide +kernel⟩
  obtain ⟨hdeclared, hname⟩ := declared_of_lookup hnodes
  obtain ⟨hdeclared', hname'⟩ := declared_of_lookup hcolours
  refine ⟨hunique, nodes, colours, hdeclared, hname, hdeclared', hname', hring, ?_, ?_⟩
  · have hspec := (findCycle?_spec tailDocuments nodes).2.2.2 hunique hdeclared
    by_contra hacyclic
    push Not at hacyclic
    exact absurd (hspec.mpr hacyclic) (by simp [hring])
  · exact ((findCycle?_spec tailDocuments colours).2.2.2 hunique hdeclared').mp hnone

end FrancaLint.TypeScope
