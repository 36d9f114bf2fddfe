import FrancaLint.Proofs.Graph.SearchCourse
import FrancaLint.Proofs.TypeScope.Cycles

/-! # Declarations without cycles

Where no two declarations have the same name, the search for a cycle of type references finds one
only if some declaration refers back to itself, directly or through others.

* `onCycle_of_transGen`: a declaration that leads back to itself is on a cycle.
* `exists_transGen_of_hasCycle`: a declaration of this kind is behind every cycle that is found. -/

namespace FrancaLint.TypeScope

open Relation

/-- A declaration that leads back to itself is on a cycle. -/
theorem onCycle_of_transGen {scope : TypeScope} {site : Site}
    (h : TransGen scope.Refers site site) : scope.OnCycle site := by
  obtain ⟨other, hrefers, hback⟩ := TransGen.head'_iff.mp h
  by_cases heq : other = site
  · rw [heq] at hrefers
    exact Or.inr hrefers
  · exact Or.inl ⟨other, heq, .single hrefers, hback⟩

variable {documents : List Document}

/-- A cycle that a search finds goes through a declaration that leads back to itself. -/
theorem exists_transGen_of_hasCycle
    (hunique : ((documents.flatMap Document.sites).map Site.name).Nodup) {start : Site}
    (hstart : Declared documents start) (h : (ofDocuments documents).hasCycle start = true) :
    ∃ site, Declared documents site ∧ TransGen (ofDocuments documents).Refers site site := by
  obtain ⟨ring, hring⟩ := Option.isSome_iff_exists.mp h
  have hdistinct : ∀ x y, Graph.ReachedBy (ofDocuments documents).edges start x →
      Graph.ReachedBy (ofDocuments documents).edges start y → x.name = y.name → x = y := by
    intro x y hx hy heq
    exact eq_of_name_eq hunique (declared_of_reaches hstart hx) (declared_of_reaches hstart hy) heq
  obtain ⟨site, hreached, hback⟩ := (Graph.isRing_of_findCycle? hring).exists_transGen hdistinct
  exact ⟨site, declared_of_reaches hstart hreached, hback⟩

end FrancaLint.TypeScope
