import FrancaLint.Proofs.TypeScope.Declared

/-! # Chains of extended elements

An element may extend another one, and so on; nothing forbids that such a chain runs in a circle.
The walk along it stops before the first element that it has met already.

* `eq_of_isSamePlace`: places of one object hold the same element.
* `baseChain_eq`: a walk goes along a chain of different elements to its end.
* `findIn_append`, `findIn_cons`: the nearest place decides about a name. -/

namespace FrancaLint.TypeScope

variable {scope : TypeScope}

/-! ## Places of one element -/

/-- A place is the same as itself. -/
theorem isSamePlace_self (place : Document × Element) : isSamePlace place place = true := by
  simp [isSamePlace]

/-- Places of one object hold the same element. -/
theorem eq_of_isSamePlace {place other : Document × Element} (h : isSamePlace place other = true) :
    place.2 = other.2 := by
  simp only [isSamePlace, Element.isSame, Bool.or_eq_true, Bool.and_eq_true, beq_iff_eq] at h
  rcases h with ⟨-, heq⟩ | ⟨heq, -⟩ <;> exact heq

/-! ## The course of a walk -/

/-- A walk goes on from a place that it has not met. -/
theorem baseChain_succ {length : Nat} {seen : List (Document × Element)}
    {place : Document × Element} (hnew : ∀ other ∈ seen, ¬ isSamePlace place other) :
    scope.baseChain (length + 1) seen place = place ::
      match scope.base? place with
      | none => []
      | some next => scope.baseChain length (place :: seen) next := by
  have hany : seen.any (isSamePlace place) = false := by
    rw [List.any_eq_false]
    exact hnew
  rw [baseChain, hany]
  exact if_neg Bool.false_ne_true

/-- A walk ends at a place that it has met. -/
theorem baseChain_of_isSamePlace {length : Nat} {seen : List (Document × Element)}
    {place other : Document × Element} (hother : other ∈ seen)
    (hsame : isSamePlace place other = true) : scope.baseChain length seen place = [] := by
  cases length with
  | zero => rfl
  | succ length => rw [baseChain, if_pos (List.any_eq_true.mpr ⟨other, hother, hsame⟩)]

/-- **A walk goes along a chain to its end.** Let each place of a chain extend the next one, and
none of them be the same as an earlier one or one that was met before. If what the last of them
extends is such a one, then the chain is the walk, provided that it has as many steps. -/
theorem baseChain_eq {length : Nat} {seen rest : List (Document × Element)}
    {place : Document × Element}
    (hchain : (place :: rest).IsChain fun earlier later => scope.base? earlier = some later)
    (hnew : ∀ later ∈ place :: rest, ∀ other ∈ seen, ¬ isSamePlace later other)
    (hpairwise : (place :: rest).Pairwise fun earlier later => ¬ isSamePlace later earlier)
    (hends : ∀ last next, (place :: rest).getLast? = some last → scope.base? last = some next →
      ∃ other, (other ∈ seen ∨ other ∈ place :: rest) ∧ isSamePlace next other = true)
    (hlength : rest.length < length) : scope.baseChain length seen place = place :: rest := by
  induction rest generalizing length seen place with
  | nil =>
    obtain ⟨length, rfl⟩ := Nat.exists_eq_add_of_lt hlength
    rw [baseChain_succ (hnew place List.mem_cons_self)]
    cases hbase : scope.base? place with
    | none => rfl
    | some next =>
      obtain ⟨other, hother, hsame⟩ := hends place next rfl hbase
      have hmet : other ∈ place :: seen := by
        rcases hother with hother | hother
        · exact List.mem_cons_of_mem _ hother
        · rw [List.mem_singleton.mp hother]
          exact List.mem_cons_self
      dsimp only
      rw [baseChain_of_isSamePlace hmet hsame]
  | cons next rest ih =>
    obtain ⟨length, rfl⟩ := Nat.exists_eq_add_of_lt hlength
    obtain ⟨hbase, hchain⟩ := List.isChain_cons_cons.mp hchain
    obtain ⟨hfirst, hpairwise⟩ := List.pairwise_cons.mp hpairwise
    rw [baseChain_succ (hnew place List.mem_cons_self), hbase]
    dsimp only
    rw [ih hchain ?_ hpairwise ?_ (by rw [List.length_cons]; omega)]
    · intro later hlater other hother
      rcases List.mem_cons.mp hother with rfl | hother
      · exact hfirst later hlater
      · exact hnew later (List.mem_cons_of_mem _ hlater) other hother
    · intro last beyond hlast hbeyond
      obtain ⟨other, hother, hsame⟩ := hends last beyond hlast hbeyond
      -- the place itself has been met by the rest of the walk
      refine ⟨other, ?_, hsame⟩
      rcases hother with hother | hother
      · exact Or.inl (List.mem_cons_of_mem _ hother)
      · rcases List.mem_cons.mp hother with rfl | hother
        · exact Or.inl List.mem_cons_self
        · exact Or.inr hother

/-! ## Names in some places -/

/-- A name is looked for in the first places first. -/
theorem findIn_append {name : String} {places others : List (Document × Element)} :
    scope.findIn name (places ++ others) =
      (scope.findIn name places).or (scope.findIn name others) :=
  List.findSome?_append

/-- A name is looked for in the first place, then in the others. -/
theorem findIn_cons {name : String} {document : Document} {element : Element}
    {places : List (Document × Element)} :
    scope.findIn name ((document, element) :: places) =
      ((element.findType? name).map (scope.ownerOf document element)).or
        (scope.findIn name places) := by
  rw [findIn, List.findSome?_cons]
  dsimp only
  cases element.findType? name <;> rfl

end FrancaLint.TypeScope
