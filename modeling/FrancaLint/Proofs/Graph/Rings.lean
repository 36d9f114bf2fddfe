import FrancaLint.Proofs.Graph.Components
import FrancaLint.Proofs.Graph.CycleSearch

/-! # Components that are rings

A depth-first walk lists the nodes of a component in an order in which they spread from the first
one. The order itself need not go along edges. It does where each node has one successor in the
component.

* `SpreadsFromFirst.isChain` and `SpreadsFromFirst.isRing`: a component whose nodes have one
  successor each inside it is listed along its edges.
* `IsRing.turn`: a ring may be read from any of its nodes on. -/

namespace FrancaLint.Graph

variable {κ : Type}

/-- A member of a list in two parts belongs to the one or the other. -/
theorem append_eq_append_cons {front back earlier later : List κ} {k : κ}
    (h : front ++ back = earlier ++ k :: later) :
    (∃ between, earlier = front ++ between ∧ back = between ++ k :: later) ∨
      ∃ later', front = earlier ++ k :: later' ∧ later = later' ++ back := by
  rcases List.append_eq_append_iff.mp h with ⟨between, hearlier, hback⟩ | ⟨between, hfront, hrest⟩
  · exact Or.inl ⟨between, hearlier, hback⟩
  · cases between with
    | nil => exact Or.inl ⟨[], by simpa using hfront.symm, hrest.symm⟩
    | cons first later' =>
      obtain ⟨rfl, rfl⟩ := List.cons.inj hrest
      exact Or.inr ⟨later', hfront, rfl⟩

/-- On a path every node but the last one is followed by a node. -/
theorem exists_next_of_isChain {edge : κ → κ → Prop} {front : List κ} {last a : κ}
    (h : (front ++ [last]).IsChain edge) (ha : a ∈ front) :
    ∃ b ∈ (front ++ [last]).tail, edge a b := by
  obtain ⟨before, behind, rfl⟩ := List.append_of_mem ha
  obtain ⟨b, rest, hrest⟩ : ∃ b rest, behind ++ [last] = b :: rest :=
    List.exists_cons_of_ne_nil (by simp)
  have heq : before ++ a :: behind ++ [last] = before ++ a :: b :: rest := by
    rw [List.append_assoc, List.cons_append, hrest]
  rw [heq] at h ⊢
  refine ⟨b, ?_, (List.isChain_cons_cons.mp (List.isChain_split.mp h).2).1⟩
  cases before <;> simp

section Rings

variable {edge : κ → κ → Prop} {nodes : List κ}

/-- Nodes that spread from the first one and have one successor each among themselves follow each
other along edges. -/
theorem SpreadsFromFirst.isChain (h : SpreadsFromFirst edge nodes) (hnodup : nodes.Nodup)
    (hone : ∀ a ∈ nodes, ∀ b ∈ nodes, ∀ c ∈ nodes, edge a b → edge a c → b = c) :
    nodes.IsChain edge := by
  induction nodes using List.reverseRecOn with
  | nil => exact List.isChain_nil
  | append_singleton front b ih =>
    have hfront : front.IsChain edge := by
      refine ih (fun earlier c later hsplit => ?_) (hnodup.sublist (List.sublist_append_left _ _))
        fun a ha c hc d hd => hone a (List.mem_append_left _ ha) c (List.mem_append_left _ hc) d
          (List.mem_append_left _ hd)
      exact h earlier c (later ++ [b]) (by rw [hsplit]; simp)
    rcases List.eq_nil_or_concat' front with rfl | ⟨front, last, rfl⟩
    · exact List.isChain_singleton b
    obtain ⟨a, ha, hab⟩ := h _ b [] rfl (by simp)
    have hlast : a = last := by
      rcases List.mem_append.mp ha with hmem | hmem
      · -- another node has its only successor on the path already
        obtain ⟨c, hc, hac⟩ := exists_next_of_isChain hfront hmem
        have hcfront := List.mem_of_mem_tail hc
        obtain rfl := hone a (List.mem_append_left _ ha) b (by simp) c
          (List.mem_append_left _ hcfront) hab hac
        exact absurd rfl ((List.nodup_append.mp hnodup).2.2 b hcfront b (by simp))
      · exact List.mem_singleton.mp hmem
    rw [List.append_assoc, List.singleton_append, List.isChain_split]
    exact ⟨hfront, List.isChain_pair.mpr (hlast ▸ hab)⟩

/-- Nodes that spread from the first one, have one successor each among themselves and lead back to
the first one are a ring. -/
theorem SpreadsFromFirst.isRing {first : κ} {others : List κ}
    (h : SpreadsFromFirst edge (first :: others)) (hnodup : (first :: others).Nodup)
    (hone : ∀ a ∈ first :: others, ∀ b ∈ first :: others, ∀ c ∈ first :: others,
      edge a b → edge a c → b = c)
    (hback : ∃ a ∈ first :: others, edge a first) :
    IsRing edge (first :: (others ++ [first])) := by
  refine ⟨first, others, rfl, hnodup, ?_⟩
  have hchain := h.isChain hnodup hone
  obtain ⟨a, ha, hedge⟩ := hback
  obtain ⟨front, last, heq⟩ : ∃ front last, first :: others = front ++ [last] :=
    (List.eq_nil_or_concat' _).resolve_left (List.cons_ne_nil _ _)
  rw [← List.cons_append, heq, List.append_assoc, List.singleton_append, List.isChain_split]
  rw [heq] at hchain ha
  refine ⟨hchain, List.isChain_pair.mpr ?_⟩
  rcases List.mem_append.mp ha with hmem | hmem
  · -- the successor of any other node comes later than the first node
    obtain ⟨b, hb, hab⟩ := exists_next_of_isChain hchain hmem
    rw [← heq] at hb ha
    obtain rfl := hone a ha b (List.mem_of_mem_tail hb) first List.mem_cons_self hab hedge
    exact absurd hb (List.nodup_cons.mp hnodup).1
  · rwa [← List.mem_singleton.mp hmem]

end Rings

/-- A ring along some edges is a ring along others that include them. -/
theorem IsRing.mono {edge edge' : κ → κ → Prop} {ring : List κ} (h : IsRing edge ring)
    (hsub : ∀ a b, edge a b → edge' a b) : IsRing edge' ring := by
  obtain ⟨first, between, heq, hnodup, hchain⟩ := h
  exact ⟨first, between, heq, hnodup, hchain.imp hsub⟩

/-- A ring may be read from any of its nodes on. -/
theorem IsRing.turn {edge : κ → κ → Prop} {first k : κ} {others front back : List κ}
    (h : IsRing edge (first :: (others ++ [first])))
    (hsplit : first :: others = front ++ k :: back) :
    IsRing edge (k :: (back ++ front ++ [k])) := by
  obtain ⟨first', others', heq, hnodup, hchain⟩ := h
  obtain ⟨rfl, hothers⟩ := List.cons.inj heq
  obtain rfl := List.append_cancel_right hothers
  refine ⟨k, back ++ front, rfl, ?_, ?_⟩
  · rw [hsplit] at hnodup
    rw [← List.cons_append]
    exact List.nodup_append_comm.mp hnodup
  · cases front with
    | nil =>
      obtain ⟨rfl, rfl⟩ := List.cons.inj hsplit
      rwa [List.append_nil]
    | cons next front =>
      obtain ⟨rfl, rfl⟩ := List.cons.inj hsplit
      -- the two ways between the nodes, taken in the other order
      have hways : (first :: front ++ k :: (back ++ [first])).IsChain edge := by
        simpa using hchain
      rw [List.isChain_split] at hways
      have hturned : (k :: back ++ first :: (front ++ [k])).IsChain edge :=
        List.isChain_split.mpr ⟨hways.2, hways.1⟩
      simpa using hturned

end FrancaLint.Graph
