import FrancaLint.Graph.DepthFirst
import Mathlib.Data.List.Chain
import Mathlib.Data.List.Nodup
import Mathlib.Logic.Relation

/-! # The search for a cycle

A depth-first search that stops with a list of keys has met a cycle: the keys follow each other
along edges of nodes that the start leads to, and only the last one comes twice.

* `KeyEdge`, the edges between keys, and `IsRing`, a list of keys along a cycle.
* `searchCycle_eq_error`: what a search stops with is a ring.
* `isRing_of_findCycle?`, the same for a search from a node, and `IsRing.transGen`: the first key of
  a ring leads back to itself. -/

namespace FrancaLint.Graph

open Relation

variable {α κ : Type} {key : α → κ} {next : α → List α} {start : α}

/-! ## Rings of keys -/

/-- One key has an **edge** to another: a node of that key, which the start leads to, has a
successor of the other key. -/
def KeyEdge (key : α → κ) (next : α → List α) (start : α) (a b : κ) : Prop :=
  ∃ node target, ReflTransGen (fun x y => y ∈ next x) start node ∧ target ∈ next node ∧
    key node = a ∧ key target = b

/-- A list of keys is a **ring**: it goes along edges, ends where it starts and meets no other key
twice. -/
def IsRing (edge : κ → κ → Prop) (ring : List κ) : Prop :=
  ∃ first between, ring = first :: (between ++ [first]) ∧ (first :: between).Nodup ∧
    ring.IsChain edge

/-- The first key of a ring leads back to itself. -/
theorem IsRing.transGen {edge : κ → κ → Prop} {ring : List κ} (h : IsRing edge ring) :
    ∃ first, TransGen edge first first := by
  obtain ⟨first, between, rfl, -, hchain⟩ := h
  refine ⟨first, ?_⟩
  cases between with
  | nil => exact .single (List.isChain_pair.mp hchain)
  | cons second rest =>
    rw [List.cons_append, List.isChain_cons_cons] at hchain
    exact .head' hchain.1
      (List.relationReflTransGen_of_exists_isChain_cons _ hchain.2 (by simp))

variable [DecidableEq κ]

/-- A path without repetitions whose last key has an edge to one of its keys has a ring at its
end. -/
theorem isRing_of_mem {edge : κ → κ → Prop} {path : List κ} {last k : κ}
    (hchain : (path ++ [last]).IsChain edge) (hnodup : (path ++ [last]).Nodup)
    (hedge : edge last k) (hmem : k ∈ path ++ [last]) :
    IsRing edge ((path ++ [last]).dropWhile (· ≠ k) ++ [k]) := by
  have hlast : (path ++ [last]).getLast? = some last := List.getLast?_concat
  obtain ⟨front, back, heq⟩ := List.append_of_mem hmem
  rw [heq] at hchain hnodup hlast ⊢
  have hfront : ∀ a ∈ front, decide (a ≠ k) = true := by
    intro a ha
    simpa using (List.nodup_append.mp hnodup).2.2 a ha k List.mem_cons_self
  have hdrop : (front ++ k :: back).dropWhile (· ≠ k) = k :: back := by
    rw [List.dropWhile_append_of_pos hfront, List.dropWhile_cons_of_neg (by simp)]
  rw [hdrop]
  refine ⟨k, back, rfl, hnodup.sublist (List.sublist_append_right _ _), ?_⟩
  rw [List.isChain_append]
  refine ⟨hchain.suffix (List.suffix_append _ _), List.isChain_singleton _, ?_⟩
  -- the ring ends with the last key of the path
  intro a ha b hb
  have hlast' : (k :: back).getLast? = some last := by
    rw [List.getLast?_append] at hlast
    simpa using hlast
  rw [hlast'] at ha
  obtain rfl : last = a := by simpa using ha
  obtain rfl : k = b := by simpa using hb
  exact hedge

/-! ## Searches -/

/-- A fold that stops with an error stops at one of its steps. -/
theorem exists_of_foldlM_eq_error {β γ ε : Type} {f : γ → β → Except ε γ} {entries : List β}
    {state : γ} {fault : ε} (h : entries.foldlM f state = .error fault) :
    ∃ entry ∈ entries, ∃ before, f before entry = .error fault := by
  induction entries generalizing state with
  | nil => cases h
  | cons entry rest ih =>
    rw [List.foldlM_cons] at h
    cases hstep : f state entry with
    | error other =>
      rw [hstep] at h
      exact ⟨entry, List.mem_cons_self, state, by rw [hstep, ← h]; rfl⟩
    | ok after =>
      rw [hstep] at h
      obtain ⟨last, hlast, hfault⟩ := ih h
      exact ⟨last, List.mem_cons_of_mem _ hlast, hfault⟩

/-- What a search stops with is a ring, if the path that leads to its node goes along edges. -/
theorem searchCycle_eq_error {depth : Nat} {path met ring : List κ} {node : α}
    (hreach : ReflTransGen (fun x y => y ∈ next x) start node)
    (hchain : (path ++ [key node]).IsChain (KeyEdge key next start))
    (hnodup : (path ++ [key node]).Nodup)
    (h : searchCycle key next depth path met node = .error ring) :
    IsRing (KeyEdge key next start) ring := by
  induction depth generalizing path met node with
  | zero => cases h
  | succ depth ih =>
    -- some successor closes a ring or leads to one
    obtain ⟨target, htarget, before, hstep⟩ := exists_of_foldlM_eq_error h
    have hedge : KeyEdge key next start (key node) (key target) :=
      ⟨node, target, hreach, htarget, rfl, rfl⟩
    split at hstep
    · rename_i hmem
      cases hstep
      exact isRing_of_mem hchain hnodup hedge hmem
    · rename_i hnew
      split at hstep
      · cases hstep
      · refine ih (hreach.tail htarget) ?_ ?_ hstep
        · rw [List.isChain_append]
          refine ⟨hchain, List.isChain_singleton _, ?_⟩
          intro a ha b hb
          obtain rfl : key node = a := by simpa using ha
          obtain rfl : key target = b := by simpa using hb
          exact hedge
        · rw [← List.concat_eq_append]
          exact hnodup.concat hnew

/-- **What a search for a cycle finds is a ring** of nodes that the start leads to. -/
theorem isRing_of_findCycle? {depth : Nat} {ring : List κ}
    (h : findCycle? key next depth start = some ring) :
    IsRing (KeyEdge key next start) ring := by
  unfold findCycle? at h
  split at h
  · cases h
  · rename_i found hfound
    cases h
    exact searchCycle_eq_error .refl (List.isChain_singleton _) (List.nodup_singleton _) hfound

end FrancaLint.Graph
