import FrancaLint.Graph.Reach
import Mathlib.Logic.Relation
import Mathlib.Data.List.Nodup

/-! # Reachable nodes

The search of a finite graph finds exactly the nodes that its start nodes lead to.

* `Edge`, the edges of a listed graph, and `OpenEdge`, those that end at a node not seen before.
* `mem_reach_iff`: a search adds to the seen nodes those that the pending ones lead to without
  passing a seen one.
* `mem_reach_nil_iff`: a search that has seen nothing finds the nodes that the pending ones lead
  to. -/

namespace FrancaLint.Graph

open Relation

variable {α : Type} [DecidableEq α]

/-! ## Edges -/

/-- The graph has an **edge** from one node to another. -/
def Edge (edges : List (α × List α)) (a b : α) : Prop :=
  b ∈ successors edges a

/-- An edge whose end has not been seen. -/
def OpenEdge (edges : List (α × List α)) (seen : List α) (a b : α) : Prop :=
  Edge edges a b ∧ b ∉ seen

/-- Without blocked nodes every edge is open. -/
@[simp] theorem openEdge_nil (edges : List (α × List α)) : OpenEdge edges [] = Edge edges := by
  funext a b
  simp [OpenEdge]

/-- What a list of pairs has for a key is one of its pairs. -/
theorem mem_of_lookup {β : Type} {pairs : List (α × β)} {a : α} {b : β}
    (h : pairs.lookup a = some b) : (a, b) ∈ pairs := by
  obtain ⟨front, back, heq, -⟩ := List.lookup_eq_some_iff.mp h
  rw [heq]
  exact List.mem_append_right _ List.mem_cons_self

/-- What a list of pairs with distinct keys has for a key is its only pair with that key. -/
theorem lookup_eq_some_iff_mem {β : Type} {pairs : List (α × β)} {a : α} {b : β}
    (h : (pairs.map Prod.fst).Nodup) :
    pairs.lookup a = some b ↔ (a, b) ∈ pairs := by
  refine ⟨mem_of_lookup, fun hmem => ?_⟩
  cases hlookup : pairs.lookup a with
  | none => simpa using List.lookup_eq_none_iff.mp hlookup _ hmem
  | some other =>
    have heq := List.inj_on_of_nodup_map h (mem_of_lookup hlookup) hmem rfl
    rw [(Prod.mk.inj heq).2]

/-- The successors of the node of the first entry are those of that entry. -/
theorem successors_cons_self (a : α) (targets : List α) (edges : List (α × List α)) :
    successors ((a, targets) :: edges) a = targets := by
  simp [successors]

/-- The successors of any other node do not depend on the first entry. -/
theorem successors_cons_of_ne {a b : α} (targets : List α) (edges : List (α × List α))
    (h : b ≠ a) : successors ((a, targets) :: edges) b = successors edges b := by
  have hb : (b == a) = false := by simpa using h
  simp [successors, List.lookup_cons, hb]

/-- In a graph that lists no node twice, the successors of a node are those of its entry. -/
theorem successors_eq_of_mem {edges : List (α × List α)} {a : α} {targets : List α}
    (hnodup : (edges.map Prod.fst).Nodup) (hmem : (a, targets) ∈ edges) :
    successors edges a = targets := by
  induction edges with
  | nil => simp at hmem
  | cons entry rest ih =>
    obtain ⟨b, others⟩ := entry
    rw [List.map_cons, List.nodup_cons] at hnodup
    rcases List.mem_cons.mp hmem with heq | hrest
    · rw [Prod.mk.injEq] at heq
      rw [heq.1, heq.2, successors_cons_self]
    · have hne : a ≠ b := by
        rintro rfl
        exact hnodup.1 (List.mem_map.mpr ⟨_, hrest, rfl⟩)
      rw [successors_cons_of_ne _ _ hne]
      exact ih hnodup.2 hrest

/-- A node with a successor is listed. -/
theorem mem_of_edge {edges : List (α × List α)} {a b : α} (h : Edge edges a b) :
    ∃ targets, (a, targets) ∈ edges ∧ b ∈ targets := by
  induction edges with
  | nil => simp [Edge, successors] at h
  | cons entry rest ih =>
    obtain ⟨c, targets⟩ := entry
    by_cases hac : a = c
    · subst hac
      rw [Edge, successors_cons_self] at h
      exact ⟨targets, List.mem_cons_self, h⟩
    · rw [Edge, successors_cons_of_ne _ _ hac] at h
      obtain ⟨others, hmem, hb⟩ := ih h
      exact ⟨others, List.mem_cons_of_mem _ hmem, hb⟩

/-- In a graph that lists no node twice, the edges are those of the entries. -/
theorem edge_iff_of_nodup {edges : List (α × List α)} (hnodup : (edges.map Prod.fst).Nodup)
    {a b : α} : Edge edges a b ↔ ∃ targets, (a, targets) ∈ edges ∧ b ∈ targets := by
  constructor
  · exact mem_of_edge
  · rintro ⟨targets, hmem, hb⟩
    rw [Edge, successors_eq_of_mem hnodup hmem]
    exact hb

/-- The graph without the entry of a node has the edges of all other nodes. -/
theorem edge_without_iff {edges : List (α × List α)} {node a b : α} :
    Edge (without edges node) a b ↔ a ≠ node ∧ Edge edges a b := by
  induction edges with
  | nil => simp [Edge, without, successors]
  | cons entry rest ih =>
    obtain ⟨c, targets⟩ := entry
    by_cases hcn : c = node
    · subst hcn
      have hdrop : without ((c, targets) :: rest) c = without rest c := by simp [without]
      rw [hdrop, ih]
      constructor
      · rintro ⟨hne, h⟩
        exact ⟨hne, by rwa [Edge, successors_cons_of_ne _ _ hne]⟩
      · rintro ⟨hne, h⟩
        exact ⟨hne, by rwa [Edge, successors_cons_of_ne _ _ hne] at h⟩
    · have hkeep : without ((c, targets) :: rest) node = (c, targets) :: without rest node := by
        simp [without, hcn]
      by_cases hac : a = c
      · subst hac
        rw [hkeep, Edge, Edge, successors_cons_self, successors_cons_self]
        exact ⟨fun h => ⟨hcn, h⟩, fun h => h.2⟩
      · rw [hkeep, Edge, Edge, successors_cons_of_ne _ _ hac, successors_cons_of_ne _ _ hac]
        exact ih

/-! ## Paths through a node -/

/-- A path either ends at a given node, or never meets it, or goes on from it for the last time
along one of its edges. -/
theorem reflTransGen_last_visit {r : α → α → Prop} {s x : α} (node : α)
    (h : ReflTransGen r s x) :
    x = node ∨ (s ≠ node ∧ ReflTransGen (fun a b => r a b ∧ a ≠ node ∧ b ≠ node) s x) ∨
      ∃ t, r node t ∧ t ≠ node ∧ ReflTransGen (fun a b => r a b ∧ a ≠ node ∧ b ≠ node) t x := by
  induction h with
  | refl =>
    by_cases hs : s = node
    · exact Or.inl hs
    · exact Or.inr (Or.inl ⟨hs, .refl⟩)
  | @tail b c _ hstep ih =>
    by_cases hc : c = node
    · exact Or.inl hc
    · right
      by_cases hb : b = node
      · -- this is the last visit so far
        subst hb
        exact Or.inr ⟨c, hstep, hc, .refl⟩
      · rcases ih with hbn | ⟨hs, hpath⟩ | ⟨t, ht, htn, hpath⟩
        · exact absurd hbn hb
        · exact Or.inl ⟨hs, hpath.tail ⟨hstep, hb, hc⟩⟩
        · exact Or.inr ⟨t, ht, htn, hpath.tail ⟨hstep, hb, hc⟩⟩

/-! ## Searches -/

/-- An edge that is open once a node has been dropped and seen was open before. -/
theorem OpenEdge.of_without {edges : List (α × List α)} {seen : List α} {node a b : α}
    (h : OpenEdge (without edges node) (node :: seen) a b) : OpenEdge edges seen a b :=
  ⟨(edge_without_iff.mp h.1).2, fun hb => h.2 (List.mem_cons_of_mem _ hb)⟩

/-- An open edge between two other nodes stays open when a node is dropped and seen. -/
theorem OpenEdge.without {edges : List (α × List α)} {seen : List α} {node a b : α}
    (h : OpenEdge edges seen a b) (ha : a ≠ node) (hb : b ≠ node) :
    OpenEdge (without edges node) (node :: seen) a b :=
  ⟨edge_without_iff.mpr ⟨ha, h.1⟩, by simp [hb, h.2]⟩

/-- A search finds the nodes seen before and those that a pending node leads to without passing
a seen one. -/
theorem mem_reach_iff {edges : List (α × List α)} {pending seen : List α} {x : α} :
    x ∈ reach edges pending seen ↔
      x ∈ seen ∨ ∃ s ∈ pending, s ∉ seen ∧ ReflTransGen (OpenEdge edges seen) s x := by
  fun_induction reach edges pending seen with
  | case1 edges seen => simp
  | case2 edges seen node rest hseen ih =>
    rw [ih]
    simp [hseen]
  | case3 edges seen node rest hseen ih =>
    rw [ih]
    constructor
    · rintro (hx | ⟨s, hs, hfresh, hpath⟩)
      · rcases List.mem_cons.mp hx with rfl | hx
        · exact Or.inr ⟨x, List.mem_cons_self, hseen, .refl⟩
        · exact Or.inl hx
      · have hpath' := ReflTransGen.mono (fun _ _ h => OpenEdge.of_without h) _ _ hpath
        rw [List.mem_cons, not_or] at hfresh
        rcases List.mem_append.mp hs with hs | hs
        · exact Or.inr ⟨node, List.mem_cons_self, hseen, .head ⟨hs, hfresh.2⟩ hpath'⟩
        · exact Or.inr ⟨s, List.mem_cons_of_mem _ hs, hfresh.2, hpath'⟩
    · rintro (hx | ⟨s, hs, hfresh, hpath⟩)
      · exact Or.inl (List.mem_cons_of_mem _ hx)
      · -- only the part of the path behind its last visit to `node` is still open
        have hopen : ∀ {t}, ReflTransGen
            (fun a b => OpenEdge edges seen a b ∧ a ≠ node ∧ b ≠ node) t x →
            ReflTransGen (OpenEdge (without edges node) (node :: seen)) t x :=
          ReflTransGen.mono (fun _ _ h => h.1.without h.2.1 h.2.2) _ _
        rcases reflTransGen_last_visit node hpath with rfl | ⟨hne, hpath⟩ | ⟨t, ht, hne, hpath⟩
        · exact Or.inl List.mem_cons_self
        · have hsrest : s ∈ rest := (List.mem_cons.mp hs).resolve_left hne
          exact Or.inr ⟨s, List.mem_append_right _ hsrest, by simp [hne, hfresh], hopen hpath⟩
        · exact Or.inr ⟨t, List.mem_append_left _ ht.1, by simp [hne, ht.2], hopen hpath⟩

/-- A search that has seen nothing finds exactly the nodes that a pending node leads to. -/
theorem mem_reach_nil_iff {edges : List (α × List α)} {pending : List α} {x : α} :
    x ∈ reach edges pending [] ↔ ∃ s ∈ pending, ReflTransGen (Edge edges) s x := by
  simp [mem_reach_iff]

/-- The nodes found from the successors of a node are those it leads to by at least one edge. -/
theorem mem_reach_successors_iff {edges : List (α × List α)} {node x : α} :
    x ∈ reach edges (successors edges node) [] ↔ TransGen (Edge edges) node x := by
  rw [mem_reach_nil_iff, TransGen.head'_iff]
  rfl

end FrancaLint.Graph
