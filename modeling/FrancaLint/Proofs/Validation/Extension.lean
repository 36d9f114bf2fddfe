import Mathlib.Data.List.Basic

/-! # Lists with further entries

A run may report what another run reports and more besides. This file relates the lists of two such
runs: the second holds the entries of the first in the same order, and between them further entries
of some kind.

* `ExtendedBy`, the relation, kept by `append`, `flatMap` and `map`.
* `ExtendedBy.of_sublist`: a sublist of a list without repetitions is extended by what it leaves
  out.
* `ExtendedBy.sublist`, `ExtendedBy.further_of_not_mem`, `ExtendedBy.any_eq`: what follows for the
  two lists. -/

namespace FrancaLint

/-- The second list is the first **extended by** entries of a kind. -/
inductive ExtendedBy {α : Type} (further : α → Prop) : List α → List α → Prop where
  /-- Nothing is extended by nothing. -/
  | nil : ExtendedBy further [] []
  /-- An entry of both lists. -/
  | keep (entry : α) {part all : List α} (rest : ExtendedBy further part all) :
      ExtendedBy further (entry :: part) (entry :: all)
  /-- A further entry. -/
  | extra {entry : α} (isFurther : further entry) {part all : List α}
      (rest : ExtendedBy further part all) : ExtendedBy further part (entry :: all)

namespace ExtendedBy

variable {α : Type} {further : α → Prop} {part all : List α}

/-- A list extends itself. -/
theorem refl (list : List α) : ExtendedBy further list list := by
  induction list with
  | nil => exact .nil
  | cons entry rest ih => exact .keep entry ih

/-- Extended lists can be joined. -/
theorem append {part' all' : List α} (h : ExtendedBy further part all)
    (h' : ExtendedBy further part' all') : ExtendedBy further (part ++ part') (all ++ all') := by
  induction h with
  | nil => exact h'
  | keep entry _ ih => exact .keep entry ih
  | extra isFurther _ ih => exact .extra isFurther ih

/-- Lists that are extended for every entry of a list are extended together. -/
theorem flatMap {β : Type} {entries : List β} {f g : β → List α}
    (h : ∀ entry ∈ entries, ExtendedBy further (f entry) (g entry)) :
    ExtendedBy further (entries.flatMap f) (entries.flatMap g) := by
  induction entries with
  | nil => exact .nil
  | cons entry rest ih =>
    rw [List.forall_mem_cons] at h
    rw [List.flatMap_cons, List.flatMap_cons]
    exact h.1.append (ih h.2)

/-- A function applied to the entries keeps the extension. -/
theorem map {β : Type} {further' : β → Prop} (f : α → β)
    (hf : ∀ entry, further entry → further' (f entry)) (h : ExtendedBy further part all) :
    ExtendedBy further' (part.map f) (all.map f) := by
  induction h with
  | nil => exact .nil
  | keep entry _ ih => exact .keep (f entry) ih
  | extra isFurther _ ih => exact .extra (hf _ isFurther) ih

/-- Further entries of one kind are further entries of a wider kind that lie in the longer list. -/
theorem imp {further' : α → Prop} (h : ExtendedBy further part all)
    (hf : ∀ entry ∈ all, further entry → further' entry) : ExtendedBy further' part all := by
  induction h with
  | nil => exact .nil
  | keep entry _ ih => exact .keep entry (ih (List.forall_mem_cons.mp hf).2)
  | extra isFurther _ ih =>
    rw [List.forall_mem_cons] at hf
    exact .extra (hf.1 isFurther) (ih hf.2)

/-- A part of a list without repetitions is extended by what it leaves out. -/
theorem of_sublist (h : part.Sublist all) (hnodup : all.Nodup)
    (hfurther : ∀ entry ∈ all, entry ∉ part → further entry) : ExtendedBy further part all := by
  induction h with
  | slnil => exact .nil
  | @cons part all entry hsub ih =>
    rw [List.nodup_cons] at hnodup
    rw [List.forall_mem_cons] at hfurther
    exact .extra (hfurther.1 fun hmem => hnodup.1 (hsub.subset hmem)) (ih hnodup.2 hfurther.2)
  | @cons_cons part all entry hsub ih =>
    -- the entry that is kept does not come again behind itself
    rw [List.nodup_cons] at hnodup
    refine .keep entry (ih hnodup.2 fun other hother hnot => ?_)
    refine hfurther other (List.mem_cons_of_mem _ hother) fun hmem => ?_
    rcases List.mem_cons.mp hmem with rfl | hmem
    · exact hnodup.1 hother
    · exact hnot hmem

/-- The list that is extended is a part of the other. -/
theorem sublist (h : ExtendedBy further part all) : part.Sublist all := by
  induction h with
  | nil => exact List.Sublist.slnil
  | keep entry _ ih => exact ih.cons_cons entry
  | extra _ _ ih => exact ih.cons _

/-- An entry of the longer list only is a further one. -/
theorem further_of_not_mem (h : ExtendedBy further part all) {entry : α} (hmem : entry ∈ all)
    (hnot : entry ∉ part) : further entry := by
  induction h with
  | nil => exact absurd hmem List.not_mem_nil
  | keep _ _ ih =>
    rw [List.mem_cons, not_or] at hnot
    exact ih ((List.mem_cons.mp hmem).resolve_left hnot.1) hnot.2
  | extra isFurther _ ih =>
    rcases List.mem_cons.mp hmem with rfl | hmem
    · exact isFurther
    · exact ih hmem hnot

/-- Further entries that fail a test do not change whether some entry passes it. -/
theorem any_eq {test : α → Bool} (h : ExtendedBy further part all)
    (htest : ∀ entry, further entry → test entry = false) : part.any test = all.any test := by
  induction h with
  | nil => rfl
  | keep entry _ ih => rw [List.any_cons, List.any_cons, ih]
  | extra isFurther _ ih => rw [List.any_cons, htest _ isFurther, Bool.false_or, ih]

end ExtendedBy

end FrancaLint
