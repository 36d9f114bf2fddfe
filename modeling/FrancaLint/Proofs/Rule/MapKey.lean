import FrancaLint.Proofs.Rule.KeyAliases
import FrancaLint.Proofs.TypeScope.Acyclic
import FrancaLint.Rule.DanglingReference
import FrancaLint.Rule.TypeCycle

/-! # Suitable map keys

The rule for map keys says nothing about cycles and about references that mean nothing; other rules
report them. Where none of the three rules finds anything in any document, every key is suitable.

* `LeadsToKey`: following aliases from a reference ends at a basic type or an enumeration.
* `not_transGen_of_typeCycles`, `isSome_resolve_of_danglingReferences` and
  `isCompound_of_mapKeys`: what it means that a rule finds nothing.
* `map_keys_are_suitable`, the three together. -/

namespace FrancaLint.Rule

open Relation

variable {documents : List Document}

/-- Following aliases from a reference inside an element of a document comes to an **end** at a
basic type or an enumeration. The target of an alias is resolved where the alias is declared. -/
inductive LeadsToKey (scope : TypeScope) : TypeRef → Document → Element → Prop where
  /-- The reference is a basic type. -/
  | primitive {ref : TypeRef} {document : Document} {element : Element}
      (isPrimitive : ref.isPrimitive = true) : LeadsToKey scope ref document element
  /-- The reference is an enumeration. -/
  | enumeration {ref : TypeRef} {document : Document} {element : Element} {site : Site}
      {enumerators : List Enumerator} {base : Option TypeRef}
      (resolved : scope.resolve ref document element = some site)
      (body : site.decl.body = .enumeration enumerators base) :
      LeadsToKey scope ref document element
  /-- The reference is an alias. -/
  | alias {ref target : TypeRef} {document : Document} {element : Element} {site : Site}
      (resolved : scope.resolve ref document element = some site)
      (body : site.decl.body = .synonym target)
      (rest : LeadsToKey scope target site.document site.element) :
      LeadsToKey scope ref document element

/-! ## Rules that find nothing -/

/-- Every name of a site has a last site. -/
theorem exists_mem_lastOfEachName {sites : List Site} {site : Site} (h : site ∈ sites) :
    ∃ last ∈ lastOfEachName sites, last.name = site.name := by
  induction sites generalizing site with
  | nil => exact absurd h List.not_mem_nil
  | cons first rest ih =>
    unfold lastOfEachName
    split
    · rename_i hagain
      rcases List.mem_cons.mp h with rfl | h
      · obtain ⟨other, hother, heq⟩ := List.any_eq_true.mp hagain
        obtain ⟨last, hlast, hname⟩ := ih hother
        exact ⟨last, hlast, hname.trans (beq_iff_eq.mp heq)⟩
      · exact ih h
    · rcases List.mem_cons.mp h with rfl | h
      · exact ⟨site, List.mem_cons_self, rfl⟩
      · obtain ⟨last, hlast, heq⟩ := ih h
        exact ⟨last, List.mem_cons_of_mem _ hlast, heq⟩

/-- A cycle that holds the name of a site of the document is reported. -/
theorem typeCycle?_ne_none {document : Document} {sites : List Site} {cycle : List String}
    {site : Site} (hsite : site ∈ sites) (hmem : site.name ∈ cycle) :
    typeCycle? document sites cycle ≠ none := by
  obtain ⟨last, hlast, heq⟩ := exists_mem_lastOfEachName hsite
  unfold typeCycle?
  rw [ne_eq, Option.map_eq_none_iff, List.find?_eq_none]
  intro hnone
  exact hnone last hlast (by simpa [heq] using hmem)

/-- Where no cycle is reported for a document, none of its declarations leads back to itself. -/
theorem not_transGen_of_typeCycles
    (hunique : ((documents.flatMap Document.sites).map Site.name).Nodup) {document : Document}
    (hdocument : document ∈ documents) (h : typeCycles document (.ofDocuments documents) = [])
    {site : Site} (hsite : site ∈ document.sites) :
    ¬ TransGen (TypeScope.ofDocuments documents).Refers site site := by
  intro hback
  have hnodes : ∀ node ∈ document.sites, Declared documents node :=
    fun node hnode => List.mem_flatMap.mpr ⟨document, hdocument, hnode⟩
  obtain ⟨cycle, hcycle, hmem⟩ := TypeScope.exists_mem_cycles hunique hnodes
    ⟨site, hsite, .refl⟩ (TypeScope.onCycle_of_transGen hback)
  rw [typeCycles, TypeScope.typesOf_eq_sites hunique hdocument, List.filterMap_eq_nil_iff] at h
  exact typeCycle?_ne_none hsite hmem (h cycle hcycle)

/-- Where no dangling reference is reported for a document, every reference of its declarations
that is not primitive means a declaration. -/
theorem isSome_resolve_of_danglingReferences
    (hunique : ((documents.flatMap Document.sites).map Site.name).Nodup) {document : Document}
    (hdocument : document ∈ documents)
    (h : danglingReferences document (.ofDocuments documents) = []) {site : Site}
    (hsite : site ∈ document.sites) {ref : TypeRef} (href : ref ∈ site.decl.references)
    (hderived : ref.isPrimitive = false) :
    ((TypeScope.ofDocuments documents).resolve ref site.document site.element).isSome = true := by
  have hown : site.document = document := by
    obtain ⟨element, -, decl, -, rfl⟩ := Document.mem_sites_iff.mp hsite
    rfl
  rw [hown]
  have htypes := (List.append_eq_nil_iff.mp h).1
  rw [TypeScope.typesOf_eq_sites hunique hdocument] at htypes
  have hfound := List.flatMap_eq_nil_iff.mp (List.flatMap_eq_nil_iff.mp htypes site hsite) ref href
  unfold danglingReference at hfound
  split at hfound
  · rename_i hsilent
    simpa [hderived] using hsilent
  · exact absurd hfound (List.cons_ne_nil _ _)

/-- Where no unsuitable key is reported for a document, the aliases of a key that is followed end at
no compound type. -/
theorem isCompound_of_mapKeys {scope : TypeScope} {document : Document}
    (h : mapKeys document scope = []) {element : Element} (helement : element ∈ document.elements)
    {decl : TypeDecl} (hdecl : decl ∈ element.types) {key value : TypeRef}
    (hbody : decl.body = .map key value) {first last : Site}
    (hfollows : FollowsKey scope document element decl key first)
    (hends : scope.AliasesEnd first last) : last.decl.body.isCompound = false := by
  have hmem : (element, decl) ∈ document.declarations :=
    Document.mem_declarations_iff.mpr ⟨helement, hdecl⟩
  have hfound : (mapKey? document scope element decl).getD [] = [] :=
    List.flatMap_eq_nil_iff.mp h _ hmem
  rw [Bool.eq_false_iff]
  intro hcompound
  have htarget := keyTarget?_eq_some_some_iff.mpr ⟨⟨first, hfollows, hends⟩, hcompound⟩
  rw [mapKey?, hbody] at hfound
  dsimp only at hfound
  rw [htarget] at hfound
  cases hfound

/-! ## Chains of aliases -/

/-- Where all references mean something, a chain of aliases that ends at no compound type leads to a
key. -/
theorem leadsToKey_of_aliasesEnd {scope : TypeScope} {ref : TypeRef} {document : Document}
    {element : Element} {first last : Site}
    (hresolve : scope.resolve ref document element = some first)
    (hends : scope.AliasesEnd first last) (hcompound : last.decl.body.isCompound = false)
    (hresolved : ∀ target, last.decl.body = .synonym target → target.isPrimitive = false →
      (scope.resolve target last.document last.element).isSome = true) :
    LeadsToKey scope ref document element := by
  obtain ⟨hpath, hend⟩ := hends
  induction hpath using ReflTransGen.head_induction_on generalizing ref document element with
  | refl =>
    cases hbody : last.decl.body with
    | enumeration enumerators base => exact .enumeration hresolve hbody
    | synonym target =>
      refine .alias hresolve hbody (.primitive ?_)
      -- a reference to a declaration would not be the end of the chain
      by_contra hprimitive
      obtain ⟨next, hnext⟩ := Option.isSome_iff_exists.mp
        (hresolved target hbody (Bool.eq_false_iff.mpr hprimitive))
      exact hend next ⟨target, hbody, hnext⟩
    | _ => simp [hbody, TypeBody.isCompound] at hcompound
  | head halias _ ih =>
    obtain ⟨target, hbody, hnext⟩ := halias
    exact .alias hresolve hbody (ih hnext)

/-- **No unsuitable map key slips through.** Where no two declarations have the same name and no
document has a finding of a type cycle, of a dangling reference or of an unsuitable key, the key of
every map comes to an end at a basic type or an enumeration. -/
theorem map_keys_are_suitable (documents : List Document)
    (hunique : ((documents.flatMap Document.sites).map Site.name).Nodup)
    (hcycles : ∀ document ∈ documents, typeCycles document (.ofDocuments documents) = [])
    (hdangling : ∀ document ∈ documents,
      danglingReferences document (.ofDocuments documents) = [])
    (hkeys : ∀ document ∈ documents, mapKeys document (.ofDocuments documents) = []) :
    ∀ document ∈ documents, ∀ element ∈ document.elements, ∀ decl ∈ element.types,
      ∀ key value, decl.body = .map key value →
        LeadsToKey (.ofDocuments documents) key document element := by
  intro document hdocument element helement decl hdecl key value hbody
  have hacyclic : ∀ site, Declared documents site →
      ¬ TransGen (TypeScope.ofDocuments documents).Refers site site := by
    intro site hsite
    obtain ⟨other, hother, hmem⟩ := List.mem_flatMap.mp hsite
    exact not_transGen_of_typeCycles hunique hother (hcycles other hother) hmem
  have hresolved : ∀ site, Declared documents site → ∀ ref ∈ site.decl.references,
      ref.isPrimitive = false →
        ((TypeScope.ofDocuments documents).resolve ref site.document site.element).isSome =
          true := by
    intro site hsite ref href hderived
    obtain ⟨other, hother, hmem⟩ := List.mem_flatMap.mp hsite
    exact isSome_resolve_of_danglingReferences hunique hother (hdangling other hother) hmem href
      hderived
  cases hprimitive : key.isPrimitive with
  | true => exact .primitive hprimitive
  | false =>
    have hmap : Declared documents (Site.of document element decl) :=
      declared_iff.mpr ⟨document, hdocument, element, helement, decl, hdecl, rfl⟩
    have href : key ∈ decl.references := by
      simp [TypeDecl.references, hbody, TypeBody.references]
    have hown := TypeScope.ownerOf_of_nodup hunique hdocument helement hdecl
    -- without a cycle below the map, the rule has followed the aliases of its key
    have hcycle : (TypeScope.ofDocuments documents).hasCycle (Site.of document element decl) =
        false := by
      rw [Bool.eq_false_iff]
      intro hfound
      obtain ⟨site, hsite, hback⟩ := TypeScope.exists_transGen_of_hasCycle hunique hmap hfound
      exact hacyclic site hsite hback
    obtain ⟨first, hfirst⟩ := Option.isSome_iff_exists.mp (hresolved _ hmap key href hprimitive)
    have hfollows : FollowsKey (.ofDocuments documents) document element decl key first :=
      ⟨hprimitive, hown ▸ hcycle, hfirst⟩
    obtain ⟨last, hends⟩ := TypeScope.exists_aliasesEnd_of_hasCycle hcycle hbody hfirst
    have hlast : Declared documents last := by
      have hdeclared := TypeScope.declared_of_resolve hmap.place hfirst
      refine TypeScope.declared_of_reaches hdeclared (ReflTransGen.mono ?_ _ _ hends.1)
      exact fun site next halias => by
        rw [TypeScope.Refers, TypeScope.edges_of_aliasOf halias]
        exact List.mem_singleton_self next
    refine leadsToKey_of_aliasesEnd hfirst hends
      (isCompound_of_mapKeys (hkeys document hdocument) helement hdecl hbody hfollows hends) ?_
    intro target hsynonym hderived
    refine hresolved last hlast target ?_ hderived
    simp [TypeDecl.references, hsynonym, TypeBody.references]

/-! ## A key behind two aliases -/

/-- A map whose key is an alias. -/
def keyMap : TypeDecl :=
  { name := "M", body := .map { derived := some "Near" } { derived := some "Near" } }

/-- The alias of an alias of an enumeration, in another package. -/
def keyAlias : TypeDecl :=
  { name := "Near", body := .synonym { derived := some "q.U.Far" } }

/-- The document with the map. -/
def keyDocument : Document :=
  { package := "p", sourcePath := "/p.fidl",
    typeCollections := [{ name := "T", types := [keyMap, keyAlias] }] }

/-- It comes with the document of the enumeration. -/
def keyDocuments : List Document :=
  [keyDocument,
   { package := "q", sourcePath := "/q.fidl",
     typeCollections := [{
       name := "U",
       types := [
         { name := "Far", body := .synonym { derived := some "Colour" } },
         { name := "Colour", body := .enumeration [{ name := "RED" }] none }] }] }]

/-- Nothing is found in these documents, so the key of the map is suitable. -/
theorem leadsToKey_near :
    ((keyDocuments.flatMap Document.sites).map Site.name).Nodup ∧
    (∀ document ∈ keyDocuments, typeCycles document (.ofDocuments keyDocuments) = []) ∧
    (∀ document ∈ keyDocuments, danglingReferences document (.ofDocuments keyDocuments) = []) ∧
    (∀ document ∈ keyDocuments, mapKeys document (.ofDocuments keyDocuments) = []) ∧
    ∀ document ∈ keyDocuments, ∀ element ∈ document.elements, ∀ decl ∈ element.types,
      ∀ key value, decl.body = .map key value →
        LeadsToKey (.ofDocuments keyDocuments) key document element := by
  have hunique : ((keyDocuments.flatMap Document.sites).map Site.name).Nodup := by decide
  have hcycles : ∀ document ∈ keyDocuments,
      typeCycles document (.ofDocuments keyDocuments) = [] := by
    unfold keyDocuments
    simp only [List.forall_mem_cons]
    exact ⟨by decide +kernel, by decide +kernel, by simp⟩
  have hdangling : ∀ document ∈ keyDocuments,
      danglingReferences document (.ofDocuments keyDocuments) = [] := by
    unfold keyDocuments
    simp only [List.forall_mem_cons]
    exact ⟨by decide +kernel, by decide +kernel, by simp⟩
  have hkeys : ∀ document ∈ keyDocuments, mapKeys document (.ofDocuments keyDocuments) = [] := by
    unfold keyDocuments
    simp only [List.forall_mem_cons]
    exact ⟨by decide +kernel, by decide +kernel, by simp⟩
  exact ⟨hunique, hcycles, hdangling, hkeys,
    map_keys_are_suitable keyDocuments hunique hcycles hdangling hkeys⟩

end FrancaLint.Rule
