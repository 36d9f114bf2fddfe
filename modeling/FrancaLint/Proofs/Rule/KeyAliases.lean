import FrancaLint.Proofs.TypeScope.FirstCycle
import FrancaLint.Proofs.TypeScope.Nearest
import FrancaLint.Rule.MapKey

/-! # The aliases behind a map key

The rule for map keys follows aliases without keeping a record of where it has been. It relies on
the search for cycles that comes before: the search goes down the chain of aliases first, along
names, and would have met a cycle if a name came twice. So the declarations of the chain have
different names, and the chain ends.

The search starts where the map stands and the chain starts where the map is at hand. The places
differ only for a map that is one object at two places; then the chain need not end.

A chain that ends does not come back to a declaration, so it is no longer than there are
declarations that references lead to from the map. The rule gives up where it would be longer.

* `AliasOf`, one step along a chain of aliases; `AliasesEnd`, where the chain ends.
* `mem_sitesFrom_of_aliases`: a chain has a bounded number of declarations.
* `unsuitableKey?_of_aliasesEnd`: the rule comes to the end of a chain that has one.
* `exists_aliasesEnd_of_searched`: the chain of a search that finds nothing has a last declaration.
* `mapKey?_spec`: which keys are reported, and what is reported about them.
* `endlessKey_sharedMap`: a map at two places whose key is an alias of itself at one of them. -/

namespace FrancaLint

open Relation

/-- A map, a struct, a union or an array. -/
def TypeBody.isCompound : TypeBody → Bool
  | .enumeration .. | .synonym .. => false
  | .map .. | .struct .. | .union .. | .array .. => true

namespace TypeScope

variable {documents : List Document} {scope : TypeScope}

/-- A declaration is an **alias** of another one, which its type means where the alias is
declared. -/
def AliasOf (scope : TypeScope) (site next : Site) : Prop :=
  ∃ target, site.decl.body = .synonym target ∧
    scope.resolve target site.document site.element = some next

/-- A declaration is an alias of one declaration only. -/
theorem aliasOf_rightUnique (scope : TypeScope) : Relator.RightUnique scope.AliasOf := by
  rintro site next other ⟨target, hbody, hresolve⟩ ⟨target', hbody', hresolve'⟩
  obtain rfl : target = target' := TypeBody.synonym.inj (hbody.symm.trans hbody')
  exact Option.some.inj (hresolve.symm.trans hresolve')

/-- The type of an alias is its only reference. -/
theorem edges_of_aliasOf {site next : Site} (h : scope.AliasOf site next) :
    scope.edges site = [next] := by
  obtain ⟨target, hbody, hresolve⟩ := h
  rw [edges, TypeDecl.references, hbody, TypeBody.references, List.filterMap_cons, hresolve]
  rfl

/-- A chain of aliases **ends** at a declaration that is no alias of anything. -/
def AliasesEnd (scope : TypeScope) (first last : Site) : Prop :=
  ReflTransGen scope.AliasOf first last ∧ ∀ next, ¬ scope.AliasOf last next

/-- A chain of aliases ends once. -/
theorem AliasesEnd.unique {first last other : Site} (h : scope.AliasesEnd first last)
    (h' : scope.AliasesEnd first other) : last = other := by
  rcases ReflTransGen.total_of_right_unique scope.aliasOf_rightUnique h.1 h'.1 with hpath | hpath
  · rcases hpath.cases_head with heq | ⟨next, halias, -⟩
    · exact heq
    · exact absurd halias (h.2 next)
  · rcases hpath.cases_head with heq | ⟨next, halias, -⟩
    · exact heq.symm
    · exact absurd halias (h'.2 next)

/-- The chain of an alias goes on with what it is an alias of. -/
theorem AliasesEnd.head {first next last : Site} (halias : scope.AliasOf first next)
    (h : scope.AliasesEnd next last) : scope.AliasesEnd first last :=
  ⟨.head halias h.1, h.2⟩

/-- A chain of aliases that ends does not come back to where it has been. -/
theorem AliasesEnd.not_transGen {first last : Site} (h : scope.AliasesEnd first last) :
    ¬ TransGen scope.AliasOf first first := by
  intro hring
  obtain ⟨hpath, hend⟩ := h
  -- every declaration of the chain is on the ring, so each has a next one
  have hon : TransGen scope.AliasOf last last := by
    clear hend
    induction hpath with
    | refl => exact hring
    | tail _ halias ih =>
      obtain ⟨other, hother, hback⟩ := TransGen.head'_iff.mp ih
      rw [scope.aliasOf_rightUnique halias hother]
      exact .tail' hback hother
  obtain ⟨next, halias, -⟩ := TransGen.head'_iff.mp hon
  exact hend next halias

/-! ## How many declarations a chain has -/

/-- The declarations that references lead to from a place. -/
def sitesFrom (scope : TypeScope) (start : Document × Element) : List Site :=
  scope.types.map Prod.snd ++ (scope.placesFrom start).flatMap fun place =>
    place.2.types.map (scope.ownerOf place.1 place.2)

/-- The bound on their number. -/
theorem length_sitesFrom {start : Document × Element} :
    (scope.sitesFrom start).length = scope.reachFrom start := by
  simp [sitesFrom, reachFrom, List.length_flatMap]

/-- A place is among those where names are looked up from it. -/
theorem mem_placesFrom_self {start : Document × Element} : start ∈ scope.placesFrom start :=
  List.mem_flatMap.mpr ⟨start, List.mem_cons_self, List.mem_cons_self⟩

/-- A type of the scope stands where names are looked up from anywhere. -/
theorem mem_placesFrom_of_lookup {start : Document × Element} {name : String} {site : Site}
    (h : scope.lookup name = some site) :
    (site.document, site.element) ∈ scope.placesFrom start := by
  refine List.mem_flatMap.mpr ⟨_, List.mem_append_left _ (List.mem_cons_of_mem _ ?_),
    List.mem_cons_self⟩
  exact List.mem_map.mpr ⟨_, Graph.mem_of_lookup h, rfl⟩

/-- The places that are near such a place are such places. -/
theorem mem_placesFrom_of_mem_nearPlaces {start place near : Document × Element}
    (hplace : place ∈ scope.placesFrom start) (hnear : near ∈ scope.nearPlaces place.1 place.2) :
    near ∈ scope.placesFrom start := by
  rcases List.mem_append.mp hnear with hnear | hnear
  · rcases eq_or_mem_elements_of_mem_baseChain hnear with rfl | hnamed
    · exact hplace
    · exact List.mem_flatMap.mpr ⟨near, List.mem_append_right _ hnamed, List.mem_cons_self⟩
  · obtain ⟨seed, hseed, hmem⟩ := List.mem_flatMap.mp hplace
    refine List.mem_flatMap.mpr ⟨seed, hseed, List.mem_cons_of_mem _ ?_⟩
    rcases List.mem_cons.mp hmem with rfl | hmem
    · exact hnear
    · obtain ⟨collection, -, rfl⟩ := List.mem_map.mp hmem
      exact hnear

/-- What a reference at such a place means is one of these declarations, and it stands at such a
place. -/
theorem mem_sitesFrom_of_resolve {start place : Document × Element} {ref : TypeRef} {site : Site}
    (hplace : place ∈ scope.placesFrom start)
    (h : scope.resolve ref place.1 place.2 = some site) :
    site ∈ scope.sitesFrom start ∧ (site.document, site.element) ∈ scope.placesFrom start := by
  rcases found_of_resolve h with ⟨name, hlookup⟩ | ⟨near, hnear, decl, hdecl, rfl⟩
  · refine ⟨List.mem_append_left _ ?_, mem_placesFrom_of_lookup hlookup⟩
    exact List.mem_map.mpr ⟨_, Graph.mem_of_lookup hlookup, rfl⟩
  · have hnear' := mem_placesFrom_of_mem_nearPlaces hplace hnear
    refine ⟨List.mem_append_right _ (List.mem_flatMap.mpr ⟨near, hnear', ?_⟩), ?_⟩
    · exact List.mem_map.mpr ⟨decl, hdecl, rfl⟩
    · rcases ownerOf_cases scope near.1 near.2 decl with heq | ⟨-, -, hlookup⟩
      · rw [heq]
        exact hnear'
      · exact mem_placesFrom_of_lookup hlookup

/-- All declarations of a chain of aliases are among those that references lead to. -/
theorem mem_sitesFrom_of_aliases {start : Document × Element} {key : TypeRef} {first site : Site}
    (hfirst : scope.resolve key start.1 start.2 = some first)
    (hpath : ReflTransGen scope.AliasOf first site) : site ∈ scope.sitesFrom start := by
  suffices h : site ∈ scope.sitesFrom start ∧
      (site.document, site.element) ∈ scope.placesFrom start from h.1
  induction hpath with
  | refl => exact mem_sitesFrom_of_resolve mem_placesFrom_self hfirst
  | tail _ halias ih =>
    obtain ⟨target, -, hresolve⟩ := halias
    exact mem_sitesFrom_of_resolve ih.2 hresolve

/-! ## Following aliases -/

/-- The rule for map keys answers with the end of a chain of aliases if it is a compound type. -/
def unsuitableEnd? (last : Site) : Option Site :=
  if last.decl.body.isCompound then some last else none

/-- The rule goes on with what an alias is an alias of. -/
theorem unsuitableKey?_of_aliasOf {steps : Nat} {site next : Site}
    (h : scope.AliasOf site next) :
    Rule.unsuitableKey? scope (steps + 1) site = Rule.unsuitableKey? scope steps next := by
  obtain ⟨target, hbody, hresolve⟩ := h
  have hderived : target.isPrimitive = false := by
    by_contra hprimitive
    rw [resolve, if_pos (by simpa using hprimitive)] at hresolve
    cases hresolve
  rw [Rule.unsuitableKey?, hbody]
  simp only [hderived, hresolve, Bool.false_eq_true, if_false]

/-- The rule stops at a declaration that is no alias. -/
theorem unsuitableKey?_of_not_aliasOf {steps : Nat} {site : Site}
    (h : ∀ next, ¬ scope.AliasOf site next) :
    Rule.unsuitableKey? scope (steps + 1) site = some (unsuitableEnd? site) := by
  rw [Rule.unsuitableKey?, unsuitableEnd?]
  cases hbody : site.decl.body with
  | synonym target =>
    cases hresolve : scope.resolve target site.document site.element with
    | some next => exact absurd ⟨target, hbody, hresolve⟩ (h next)
    | none => simp [TypeBody.isCompound, hresolve]
  | _ => simp [TypeBody.isCompound]

/-- The rule follows a chain of aliases to its end, if the bound is the number of some declarations
that the chain does not leave. -/
theorem unsuitableKey?_of_aliasesEnd {first last : Site} {sites : List Site}
    (h : scope.AliasesEnd first last)
    (hsites : ∀ site, ReflTransGen scope.AliasOf first site → site ∈ sites) :
    Rule.unsuitableKey? scope sites.length first = some (unsuitableEnd? last) := by
  obtain ⟨hpath, hend⟩ := h
  -- on the chain: what comes after its first declaration does without that one
  induction hpath using ReflTransGen.head_induction_on generalizing sites with
  | refl =>
    obtain ⟨steps, hsteps⟩ := Nat.exists_eq_add_one.mpr (List.length_pos_of_mem (hsites last .refl))
    rw [hsteps]
    exact unsuitableKey?_of_not_aliasOf hend
  | @head first next halias hpath ih =>
    have hfirst : first ∈ sites := hsites first .refl
    have hrest : ∀ site, ReflTransGen scope.AliasOf next site → site ∈ sites.erase first := by
      intro site hsite
      refine (List.mem_erase_of_ne ?_).mpr (hsites site (.head halias hsite))
      rintro rfl
      exact AliasesEnd.not_transGen ⟨.head halias hpath, hend⟩ (.head' halias hsite)
    have hlength : sites.length = (sites.erase first).length + 1 := by
      rw [List.length_erase_of_mem hfirst]
      have := List.length_pos_of_mem hfirst
      omega
    rw [hlength, unsuitableKey?_of_aliasOf halias]
    exact ih hrest

/-- Where the rule gives an answer, the chain of aliases ends. -/
theorem exists_aliasesEnd_of_unsuitableKey? {steps : Nat} {first : Site} {answer : Option Site}
    (h : Rule.unsuitableKey? scope steps first = some answer) :
    ∃ last, scope.AliasesEnd first last := by
  induction steps generalizing first with
  | zero => cases h
  | succ steps ih =>
    by_cases halias : ∃ next, scope.AliasOf first next
    · obtain ⟨next, halias⟩ := halias
      rw [unsuitableKey?_of_aliasOf halias] at h
      obtain ⟨last, hlast⟩ := ih h
      exact ⟨last, hlast.head halias⟩
    · exact ⟨first, .refl, not_exists.mp halias⟩

/-! ## Searches that find nothing -/

/-- A search that finds nothing has gone down the chain of aliases of its first node, so the chain
ends. -/
theorem exists_aliasesEnd_of_searched {site : Site} {path met after : List String}
    {rest : List Site} (hmet : met ⊆ path)
    (h : Graph.Searched Site.name scope.edges path met (site :: rest) (.ok after)) :
    ∃ last, scope.AliasesEnd site last := by
  generalize htargets : site :: rest = targets at h
  generalize hout : (Except.ok after : Except (List String) (List String)) = outcome at h
  -- on the course of the search: below an alias there is nothing but what it stands for
  induction h generalizing site rest after with
  | done => cases htargets
  | ring => cases hout
  | stop => cases hout
  | skip offPath known =>
    exact absurd (hmet known) offPath
  | @go path met _ target _ _ offPath _ below _ ih =>
    obtain ⟨rfl, -⟩ := List.cons.inj htargets
    by_cases halias : ∃ next, scope.AliasOf site next
    · obtain ⟨next, halias⟩ := halias
      have hmet' : site.name :: met ⊆ path ++ [site.name] :=
        List.cons_subset.mpr ⟨by simp, List.Subset.trans hmet (List.subset_append_left _ _)⟩
      obtain ⟨last, hlast⟩ := ih hmet' (edges_of_aliasOf halias).symm rfl
      exact ⟨last, hlast.head halias⟩
    · exact ⟨site, .refl, not_exists.mp halias⟩

/-- Where a search from a map finds nothing, the chain of aliases of its key ends. -/
theorem exists_aliasesEnd_of_hasCycle {start first : Site} {key value : TypeRef}
    (hacyclic : (ofDocuments documents).hasCycle start = false)
    (hbody : start.decl.body = .map key value)
    (hresolve : (ofDocuments documents).resolve key start.document start.element = some first) :
    ∃ last, (ofDocuments documents).AliasesEnd first last := by
  obtain ⟨rest, hedges⟩ : ∃ rest, (ofDocuments documents).edges start = first :: rest := by
    rw [edges, TypeDecl.references, hbody, TypeBody.references, List.filterMap_cons, hresolve]
    exact ⟨_, rfl⟩
  obtain ⟨outcome, hcourse, hanswer⟩ := exists_searched_findCycle? documents start
  cases outcome with
  | error ring => simp [hasCycle, (hanswer ring).mpr rfl] at hacyclic
  | ok after =>
    rw [hedges] at hcourse
    exact exists_aliasesEnd_of_searched (List.Subset.refl _) hcourse

end TypeScope

namespace Rule

/-! ## Reported keys -/

variable {scope : TypeScope} {document : Document} {element : Element} {decl : TypeDecl}
  {key value : TypeRef} {last : Site}

/-- The rule **follows** the key of a map: it is not a basic type, no cycle is found from where the
map stands, and the key means a first declaration where the map is at hand. -/
structure FollowsKey (scope : TypeScope) (document : Document) (element : Element)
    (decl : TypeDecl) (key : TypeRef) (first : Site) : Prop where
  /-- The key is not a basic type. -/
  derived : key.isPrimitive = false
  /-- No cycle is found from the map. -/
  acyclic : scope.hasCycle (scope.ownerOf document element decl) = false
  /-- The key means the first declaration. -/
  resolved : scope.resolve key document element = some first

/-- The key of a map is **unsuitable**: its aliases end at a compound type. -/
def UnsuitableKey (scope : TypeScope) (document : Document) (element : Element) (decl : TypeDecl)
    (key : TypeRef) (last : Site) : Prop :=
  (∃ first, FollowsKey scope document element decl key first ∧ scope.AliasesEnd first last) ∧
    last.decl.body.isCompound = true

/-- The rule follows the aliases of a key that it follows. -/
theorem FollowsKey.keyTarget?_eq {first : Site}
    (h : FollowsKey scope document element decl key first) :
    keyTarget? document scope element decl key =
      unsuitableKey? scope (scope.reachFrom (document, element)) first := by
  simp only [keyTarget?, h.derived, h.acyclic, h.resolved, Bool.false_eq_true, if_false]

/-- The rule comes to the end of the aliases of a key that it follows, if they have one. -/
theorem FollowsKey.keyTarget?_of_aliasesEnd {first : Site}
    (h : FollowsKey scope document element decl key first) (hends : scope.AliasesEnd first last) :
    keyTarget? document scope element decl key = some (TypeScope.unsuitableEnd? last) := by
  rw [h.keyTarget?_eq, ← TypeScope.length_sitesFrom]
  exact TypeScope.unsuitableKey?_of_aliasesEnd hends fun _ =>
    TypeScope.mem_sitesFrom_of_aliases h.resolved

/-- The rule is silent about a key that it does not follow. -/
theorem keyTarget?_of_not_followsKey
    (h : ∀ first, ¬ FollowsKey scope document element decl key first) :
    keyTarget? document scope element decl key = some none := by
  unfold keyTarget?
  split
  · rfl
  split
  · rfl
  rename_i hderived hacyclic
  split
  · rfl
  · rename_i first hresolve
    rw [Bool.not_eq_true] at hderived hacyclic
    exact absurd ⟨hderived, hacyclic, hresolve⟩ (h first)

/-- The rule answers with a declaration if that is what makes the key unsuitable. -/
theorem keyTarget?_eq_some_some_iff :
    keyTarget? document scope element decl key = some (some last) ↔
      UnsuitableKey scope document element decl key last := by
  constructor
  · intro h
    by_cases hfollows : ∃ first, FollowsKey scope document element decl key first
    · obtain ⟨first, hfirst⟩ := hfollows
      obtain ⟨other, hother⟩ : ∃ last, scope.AliasesEnd first last := by
        rw [hfirst.keyTarget?_eq] at h
        exact TypeScope.exists_aliasesEnd_of_unsuitableKey? h
      rw [hfirst.keyTarget?_of_aliasesEnd hother, TypeScope.unsuitableEnd?] at h
      split at h
      · rename_i hcompound
        cases h
        exact ⟨⟨first, hfirst, hother⟩, hcompound⟩
      · cases h
    · rw [keyTarget?_of_not_followsKey (not_exists.mp hfollows)] at h
      cases h
  · rintro ⟨⟨first, hfirst, hlast⟩, hcompound⟩
    rw [hfirst.keyTarget?_of_aliasesEnd hlast, TypeScope.unsuitableEnd?, if_pos hcompound]

/-- A map whose key is an alias. -/
def nearMap : TypeDecl :=
  { name := "M", body := .map { derived := some "Near" } { predefined := some "String" } }

/-- The interface with the map extends another one. -/
def nearInterface : Interface :=
  { name := "I", types := [nearMap], base := some "J" }

/-- The other interface has the alias and extends the first one. -/
def nearDocument : Document :=
  { package := "p", sourcePath := "/p.fidl",
    interfaces := [
      nearInterface,
      { name := "J", base := some "I",
        types := [{ name := "Near", body := .synonym { derived := some "q.U.Far" } }] }] }

/-- What the alias stands for is declared twice in another file, as an alias of an array and as a
struct. -/
def farDocument : Document :=
  { package := "q", sourcePath := "/q.fidl",
    typeCollections := [
      { name := "U",
        types := [
          { name := "Far", body := .synonym { derived := some "Here" } },
          { name := "Here", body := .array { predefined := some "UInt8" } }] },
      { name := "U", types := [{ name := "Far", body := .struct [] none }] }] }

/-! ## A map at two places -/

/-- A map that stands at several places. -/
def sharedMap : TypeDecl :=
  { name := "M", body := .map { derived := some "K" } { predefined := some "String" },
    identity := some 0 }

/-- The map is all that this type collection declares. -/
def plainCollection : TypeCollection :=
  { name := "T", types := [sharedMap] }

/-- Another type collection of the same name declares the same map beside two aliases of each
other. -/
def ringCollection : TypeCollection :=
  { name := "T",
    types := [sharedMap, { name := "K", body := .synonym { derived := some "L" } },
      { name := "L", body := .synonym { derived := some "K" } }] }

/-- The document of the first type collection. -/
def plainDocument : Document :=
  { package := "p", sourcePath := "/p.fidl", typeCollections := [plainCollection] }

/-- The document of the second one. -/
def ringDocument : Document :=
  { package := "p", sourcePath := "/q.fidl", typeCollections := [ringCollection] }

end Rule

end FrancaLint
