import FrancaLint.Graph.Components
import FrancaLint.Proofs.Graph.LowLinks

/-! # The search for cyclic components

What each step of the search keeps, and so what it has found when no node is open any more.

* `Search.Sound`, the invariant of the search: the low-links are right for the edges looked at, and
  the components found are the cyclic ones among the nodes that have left the stack.
* `Search.Recorded`: the edges looked at are those of the nodes met.
* `Search.InOrder`, both; `Search.InOrder.enter`, `Search.InOrder.revisit` and
  `Search.InOrder.leave`, one for each step.
* `Search.InOrder.exists_run`, by induction along the loop; `exists_cyclicComponents`: the search
  finds the cyclic components of the graph that it has walked over. -/

namespace FrancaLint.Graph

open Relation

variable {α κ : Type} [DecidableEq κ]

namespace Search

variable {edge edge' : κ → κ → Prop} {open_ rest : List κ} {search : Search κ} {k t a b : κ}

/-! ## What the steps change -/

omit [DecidableEq κ] in
@[simp] theorem met_enter : (search.enter k).met = k :: search.met := rfl

@[simp] theorem indexOf_enter_self : (search.enter k).indexOf k = search.index.length := by
  simp [indexOf, enter]

theorem indexOf_enter_of_ne (h : a ≠ k) : (search.enter k).indexOf a = search.indexOf a := by
  have hne : (a == k) = false := by simpa using h
  simp [indexOf, enter, List.lookup_cons, hne]

@[simp] theorem lowOf_enter_self : (search.enter k).lowOf k = search.index.length := by
  simp [lowOf, enter]

theorem lowOf_enter_of_ne (h : a ≠ k) : (search.enter k).lowOf a = search.lowOf a := by
  have hne : (a == k) = false := by simpa using h
  simp [lowOf, enter, List.lookup_cons, hne]

@[simp] theorem lowOf_lower_self {number : Nat} :
    (search.lower k number).lowOf k = min (search.lowOf k) number := by
  simp [lowOf, lower]

theorem lowOf_lower_of_ne {number : Nat} (h : a ≠ k) :
    (search.lower k number).lowOf a = search.lowOf a := by
  have hne : (a == k) = false := by simpa using h
  simp [lowOf, lower, List.lookup_cons, hne]

/-- Remembering an edge changes the self loops only. -/
theorem note_eq (search : Search κ) (k t : κ) :
    ∃ loops, search.note k t = { search with selfLoops := loops } ∧
      ∀ a, a ∈ loops ↔ a ∈ search.selfLoops ∨ t = k ∧ a = k := by
  unfold note
  split
  · rename_i heq
    exact ⟨_, rfl, fun a => by simp [heq, or_comm]⟩
  · rename_i hne
    exact ⟨_, rfl, fun a => by simp [hne]⟩

/-- Taking a component from the stack moves it to the components found, if it is a cycle. -/
theorem pop_eq {above below : List κ} (hstack : search.stack = above ++ k :: below)
    (hk : k ∉ above) : search.pop k = { search with
      stack := below
      found := search.found ++ if 1 < (above ++ [k]).length ∨ k ∈ search.selfLoops then
        [search.arrange (above ++ [k])] else [] } := by
  have hfront : ∀ a ∈ above, decide (a ≠ k) = true := by
    intro a ha
    simpa using fun heq : a = k => hk (heq ▸ ha)
  unfold pop
  rw [hstack, List.takeWhile_append_of_pos hfront, List.takeWhile_cons_of_neg (by simp),
    List.dropWhile_append_of_pos hfront, List.dropWhile_cons_of_neg (by simp), List.append_nil,
    List.tail_cons]
  split
  · rename_i hcyclic
    rw [if_pos hcyclic]
  · rename_i hacyclic
    rw [if_neg hacyclic, List.append_nil]

/-- A key is put between the others. -/
theorem perm_place (search : Search κ) (k : κ) (keys : List κ) :
    (search.place k keys).Perm (k :: keys) := by
  induction keys with
  | nil => exact .refl _
  | cons first rest ih =>
    unfold place
    split
    · exact .refl _
    · exact (ih.cons first).trans (.swap k first rest)

/-- The order is kept. -/
theorem pairwise_place {keys : List κ}
    (h : keys.Pairwise fun a b => search.indexOf a ≤ search.indexOf b) :
    (search.place k keys).Pairwise fun a b => search.indexOf a ≤ search.indexOf b := by
  induction keys with
  | nil => exact List.pairwise_singleton _ _
  | cons first rest ih =>
    obtain ⟨hfirst, hrest⟩ := List.pairwise_cons.mp h
    unfold place
    split
    · rename_i hle
      refine List.pairwise_cons.mpr ⟨fun a ha => ?_, h⟩
      rcases List.mem_cons.mp ha with rfl | ha
      · exact hle
      · exact hle.trans (hfirst a ha)
    · rename_i hgt
      refine List.pairwise_cons.mpr ⟨fun a ha => ?_, ih hrest⟩
      rcases List.mem_cons.mp ((search.perm_place k rest).mem_iff.mp ha) with rfl | ha
      · exact Nat.le_of_not_le hgt
      · exact hfirst a ha

/-- Keys that are put in order stay the same. -/
theorem perm_arrange (search : Search κ) (keys : List κ) : (search.arrange keys).Perm keys := by
  have h : ∀ sorted, (keys.foldl (fun sorted k => search.place k sorted) sorted).Perm
      (keys ++ sorted) := by
    induction keys with
    | nil => exact fun sorted => .refl _
    | cons k rest ih =>
      intro sorted
      exact (ih _).trans (((search.perm_place k sorted).append_left rest).trans List.perm_middle)
  rw [arrange]
  simpa using h []

/-- Their order is that of their numbers. -/
theorem pairwise_arrange (search : Search κ) (keys : List κ) :
    (search.arrange keys).Pairwise fun a b => search.indexOf a ≤ search.indexOf b :=
  List.foldlRecOn keys _ .nil fun _ hsorted _ _ => pairwise_place hsorted

/-! ## The invariant -/

/-- The search is **sound** for the edges that it has looked at and the keys of the open nodes, the
innermost one first. -/
structure Sound (edge : κ → κ → Prop) (open_ : List κ) (search : Search κ) : Prop where
  /-- The next number is new. -/
  index_lt : ∀ a ∈ search.met, search.indexOf a < search.index.length
  /-- Edges that have been looked at go from and to nodes that have been met. -/
  edge_met : ∀ a b, edge a b → a ∈ search.met ∧ b ∈ search.met
  /-- The nodes on the stack have been met. -/
  stack_met : ∀ a ∈ search.stack, a ∈ search.met
  /-- Edges of a node to itself are remembered. -/
  loops : ∀ a, a ∈ search.selfLoops ↔ edge a a
  /-- The low-links are right. -/
  links : LowLinks edge search.indexOf search.lowOf open_ search.stack
  /-- The components found are the cyclic ones among the nodes that have left the stack. -/
  cyclic : CyclicComponents edge (fun a => a ∈ search.met ∧ a ∉ search.stack) search.found

/-- A search that has found nothing is sound. -/
theorem sound_empty : ({} : Search κ).Sound (fun _ _ => False) [] where
  index_lt := by simp [met]
  edge_met := by simp
  stack_met := by simp
  loops := by simp
  links := .nil _ _ _
  cyclic := by constructor <;> simp [met]

namespace Sound

/-- Nodes that have left the stack get no new edges. -/
theorem growsOutside (h : search.Sound edge open_)
    (hfollows : LowLinks.Follows edge edge' open_ t) :
    GrowsOutside (fun a => a ∈ search.met ∧ a ∉ search.stack) edge edge' where
  mono _ _ := hfollows.mono
  closed a b ha hedge := by
    rcases (hfollows a b).mp hedge with hold | ⟨hhead, -⟩
    · exact ⟨hold, (h.edge_met a b hold).2, h.links.closed a b hold ha.2⟩
    · exact absurd (h.links.open_subset a (List.mem_of_mem_head? hhead)) ha.2

/-- Meeting a node keeps the search sound. The edge on which it is met, if any, starts at the
innermost open node. -/
theorem enter (h : search.Sound edge open_) (hnew : k ∉ search.met)
    (hfollows : LowLinks.Follows edge edge' open_ k) :
    (search.enter k).Sound edge' (k :: open_) := by
  have hne : ∀ {a}, a ∈ search.met → a ≠ k := fun ha heq => hnew (heq ▸ ha)
  have hopen : ∀ {z}, z ∈ open_ → z ∈ search.met :=
    fun hz => h.stack_met _ (h.links.open_subset _ hz)
  have hedge : ∀ a b, edge' a b → a ∈ search.met ∧ (b ∈ search.met ∨ b = k) := by
    intro a b hab
    rcases (hfollows a b).mp hab with hold | ⟨hhead, rfl⟩
    · exact ⟨(h.edge_met a b hold).1, Or.inl (h.edge_met a b hold).2⟩
    · exact ⟨hopen (List.mem_of_mem_head? hhead), Or.inr rfl⟩
  constructor
  case index_lt =>
    intro a ha
    have hlength : (search.enter k).index.length = search.index.length + 1 := rfl
    rcases List.mem_cons.mp ha with rfl | ha
    · rw [indexOf_enter_self, hlength]
      exact Nat.lt_succ_self _
    · rw [indexOf_enter_of_ne (hne ha), hlength]
      exact (h.index_lt a ha).trans (Nat.lt_succ_self _)
  case edge_met =>
    intro a b hab
    rw [met_enter, List.mem_cons, List.mem_cons, or_comm (a := b = k)]
    exact ⟨Or.inr (hedge a b hab).1, (hedge a b hab).2⟩
  case stack_met =>
    intro a ha
    rcases List.mem_cons.mp ha with rfl | ha
    · exact List.mem_cons_self
    · exact List.mem_cons_of_mem _ (h.stack_met a ha)
  case loops =>
    intro a
    rw [show (search.enter k).selfLoops = search.selfLoops from rfl, h.loops, hfollows]
    refine ⟨Or.inl, ?_⟩
    rintro (hold | ⟨hhead, rfl⟩)
    · exact hold
    · exact absurd (hopen (List.mem_of_mem_head? hhead)) hnew
  case links =>
    have hold : LowLinks edge (search.enter k).indexOf (search.enter k).lowOf open_ search.stack :=
      h.links.congr (fun a ha => indexOf_enter_of_ne (hne (h.stack_met a ha)))
        fun z hz => lowOf_enter_of_ne (hne (hopen hz))
    refine hold.enter hfollows (fun a b hab => ?_) (fun a ha => ?_) (by simp)
    · exact ⟨hne (h.edge_met a b hab).1, hne (h.edge_met a b hab).2⟩
    · rw [indexOf_enter_of_ne (hne (h.stack_met a ha)), indexOf_enter_self]
      exact h.index_lt a (h.stack_met a ha)
  case cyclic =>
    have hsame : (fun a => a ∈ (search.enter k).met ∧ a ∉ (search.enter k).stack) =
        fun a => a ∈ search.met ∧ a ∉ search.stack := by
      funext a
      show (a ∈ k :: search.met ∧ a ∉ k :: search.stack) = _
      by_cases ha : a = k
      · simp [ha, hnew]
      · simp [ha]
    rw [hsame]
    exact (h.growsOutside hfollows).cyclicComponents h.cyclic

/-- Looking at an edge to a node met before keeps the search sound. -/
theorem revisit (h : search.Sound edge (k :: rest)) (ht : t ∈ search.met)
    (hfollows : LowLinks.Follows edge edge' (k :: rest) t) :
    ((search.note k t).revisit k t).Sound edge' (k :: rest) := by
  obtain ⟨loops, hnote, hloops⟩ := note_eq search k t
  -- apart from the self loops, only the low-link of the innermost open node changes
  obtain ⟨low, hrevisit, hlow⟩ : ∃ low, (search.note k t).revisit k t =
      { search with selfLoops := loops, low := low } ∧
      LowLinks edge' search.indexOf (fun a => (low.lookup a).getD 0) (k :: rest) search.stack := by
    rw [hnote]
    unfold Search.revisit
    split
    · rename_i hin
      refine ⟨_, rfl, h.links.revisit hfollows (fun z hz => ?_) (fun hout => absurd hin hout)
        fun _ => ?_⟩
      · exact (lowOf_lower_of_ne hz : (search.lower k _).lowOf z = search.lowOf z)
      · exact (lowOf_lower_self : (search.lower k _).lowOf k = min (search.lowOf k) _)
    · rename_i hout
      exact ⟨_, rfl, h.links.revisit hfollows (fun _ _ => rfl) (fun _ => rfl)
        fun hin => absurd hin hout⟩
  rw [hrevisit]
  constructor
  case index_lt => exact h.index_lt
  case edge_met =>
    intro a b hab
    rcases (hfollows a b).mp hab with hold | ⟨hhead, rfl⟩
    · exact h.edge_met a b hold
    · exact ⟨h.stack_met a (h.links.open_subset a (List.mem_of_mem_head? hhead)), ht⟩
  case stack_met => exact h.stack_met
  case loops =>
    intro a
    show a ∈ loops ↔ edge' a a
    rw [hloops, h.loops, hfollows, List.head?_cons, Option.some.injEq]
    grind
  case links => exact hlow
  case cyclic => exact (h.growsOutside hfollows).cyclicComponents h.cyclic

/-- A component is cyclic if the search keeps it: it has several nodes, or its first node has an
edge to itself. -/
theorem onCycle_iff (h : search.Sound edge open_) {component : List κ}
    (hcomponent : IsComponent edge component) (hk : k ∈ component) (ha : a ∈ component) :
    OnCycle edge a ↔ 1 < component.length ∨ k ∈ search.selfLoops := by
  rw [hcomponent.onCycle_iff ha, h.loops]
  refine or_congr_right' fun hone => ?_
  have hsame : a = k := by
    match component with
    | [] => exact absurd ha List.not_mem_nil
    | [c] => rw [List.mem_singleton.mp ha, List.mem_singleton.mp hk]
    | _ :: _ :: _ => simp at hone
  rw [hsame]

/-- Taking a component from the stack keeps the search sound. -/
theorem pop (h : search.Sound edge (k :: rest)) (hlow : search.lowOf k = search.indexOf k) :
    (search.pop k).Sound edge rest := by
  obtain ⟨above, below, hstack⟩ := List.append_of_mem (h.links.open_subset k List.mem_cons_self)
  have hlinks := h.links
  rw [hstack] at hlinks
  have hcomponent := hlinks.isComponent_above hlow
  have hk : k ∈ above ++ [k] := by simp
  -- the nodes that have left the stack are the old ones and those of the component
  have hold : ∀ a, a ∈ search.met ∧ a ∉ search.stack → a ∈ search.met ∧ a ∉ below := by
    rintro a ⟨hmet, hout⟩
    exact ⟨hmet, fun ha => hout (by rw [hstack]; simp [ha])⟩
  have hnew : ∀ a, a ∈ search.met ∧ a ∉ below →
      (a ∈ search.met ∧ a ∉ search.stack) ∨ a ∈ above ++ [k] := by
    rintro a ⟨hmet, hout⟩
    rw [hstack]
    simp only [List.mem_append, List.mem_cons, List.not_mem_nil, or_false]
    tauto
  have hin : ∀ a ∈ above ++ [k], a ∈ search.stack ∧ a ∉ below := by
    intro a ha
    have hmem : a ∈ above ++ k :: below := mem_stack_of_mem_above ha
    rw [hstack]
    refine ⟨hmem, fun hbelow => ?_⟩
    exact absurd ((hlinks.mem_below_iff hmem).mp hbelow)
      (Nat.not_lt.mpr ((hlinks.mem_above_iff hmem).mp ha))
  have hnodup := hcomponent.1
  have hperm := search.perm_arrange (above ++ [k])
  rw [pop_eq hstack fun hmem => (List.nodup_append.mp hnodup).2.2 k hmem k (by simp) rfl]
  constructor
  case index_lt => exact h.index_lt
  case edge_met => exact h.edge_met
  case stack_met =>
    intro a ha
    have hmem : a ∈ below := ha
    exact h.stack_met a (by simp [hstack, hmem])
  case loops => exact h.loops
  case links => exact hlinks.pop hlow
  case cyclic =>
    show CyclicComponents edge (fun a => a ∈ search.met ∧ a ∉ below) _
    dsimp only
    split_ifs with hcyclic
    · refine h.cyclic.concat ?_ hold ?_ ?_ ?_ ?_ ?_ ?_
      · exact fun a b ha hedge => ⟨(h.edge_met a b hedge).2, h.links.closed a b hedge ha.2⟩
      · exact fun a ha => (hnew a ha).imp_right hperm.mem_iff.mpr
      · intro a ha
        obtain ⟨hin, hout⟩ := hin a (hperm.mem_iff.mp ha)
        exact ⟨h.stack_met a hin, hout⟩
      · exact fun a ha hout => hout.2 (hin a (hperm.mem_iff.mp ha)).1
      · obtain ⟨-, b, hb, hall⟩ := hcomponent
        exact ⟨hperm.nodup_iff.mpr hnodup, b, hperm.mem_iff.mpr hb, fun a => by
          rw [hperm.mem_iff, hall]⟩
      · exact hlinks.spreadsFromFirst (fun a => hperm.mem_iff) (hperm.nodup_iff.mpr hnodup)
          (search.pairwise_arrange _)
      · exact fun a ha => (h.onCycle_iff hcomponent hk (hperm.mem_iff.mp ha)).mpr hcyclic
    · rw [List.append_nil]
      refine h.cyclic.of_not_onCycle hold fun a ha => (hnew a ha).imp_right fun ha hcycle => ?_
      exact hcyclic ((h.onCycle_iff hcomponent hk ha).mp hcycle)

/-- Leaving a node whose successors have been looked at keeps the search sound. -/
theorem leave (h : search.Sound edge (k :: rest)) :
    (search.leave k rest.head?).Sound edge rest := by
  cases rest with
  | nil =>
    have hleave : search.leave k none = search.pop k := if_pos h.links.low_eq_of_singleton
    rw [List.head?_nil, hleave]
    exact h.pop h.links.low_eq_of_singleton
  | cons parent rest =>
    have hinner := (List.pairwise_cons.mp h.links.open_sorted).1
    by_cases hlow : search.lowOf k = search.indexOf k
    · have hpop := h.pop hlow
      have hleave : search.leave k (some parent) =
          (search.pop k).lower parent ((search.pop k).lowOf k) := by
        rw [Search.leave, if_pos hlow]
      have hsame : (search.pop k).lowOf = search.lowOf := by
        unfold Search.pop
        dsimp only
        split <;> rfl
      rw [List.head?_cons, hleave]
      refine { hpop with links := hpop.links.congr (fun _ _ => rfl) fun z hz => ?_ }
      by_cases hzp : z = parent
      · -- the low-link of the node left is its number, which is higher than that of its parent
        have hle := h.links.low_le z (List.mem_cons_of_mem _ hz)
        have hlt := hinner z hz
        rw [hzp, lowOf_lower_self, hsame, hlow, min_eq_left]
        rw [← hzp]
        omega
      · exact lowOf_lower_of_ne hzp
    · have hleave : search.leave k (some parent) = search.lower parent (search.lowOf k) := by
        rw [Search.leave, if_neg hlow]
      have hlt := lt_of_le_of_ne (h.links.low_le k List.mem_cons_self) hlow
      have hlinks : LowLinks edge search.indexOf (search.lower parent (search.lowOf k)).lowOf
          (parent :: rest) search.stack :=
        h.links.leave hlt (fun z hz => lowOf_lower_of_ne hz) lowOf_lower_self
      rw [List.head?_cons, hleave]
      exact { h with links := hlinks }

end Sound

/-! ## The edges looked at -/

variable {key : α → κ} {next : α → List α} {visible : α → Prop} {frames : List (Frame α κ)}
  {pending : List α} {target : α}

/-- The node of a key has the successors with these keys, and some others that have not been looked
at. -/
def Stands (key : α → κ) (next : α → List α) (visible : α → Prop) (edge : κ → κ → Prop) (k : κ)
    (pending : List α) : Prop :=
  ∃ node seen, visible node ∧ key node = k ∧ next node = seen ++ pending ∧
    ∀ b, edge k b ↔ ∃ target ∈ seen, key target = b

/-- The edges looked at are **recorded** right: each node met stands for its key. -/
structure Recorded (key : α → κ) (next : α → List α) (visible : α → Prop) (edge : κ → κ → Prop)
    (frames : List (Frame α κ)) (search : Search κ) : Prop where
  /-- Open nodes have successors that have not been looked at. -/
  opened : ∀ frame ∈ frames, Stands key next visible edge frame.key frame.pending
  /-- All other nodes have none. -/
  completed : ∀ k ∈ search.met, (∀ frame ∈ frames, frame.key ≠ k) →
    Stands key next visible edge k []

namespace Recorded

omit [DecidableEq κ] in
/-- Looking at an edge records it. -/
theorem follow (h : search.Recorded key next visible edge (⟨k, target :: pending⟩ :: frames))
    (hdistinct : ((⟨k, target :: pending⟩ :: frames).map Frame.key).Nodup) {keys : List κ}
    (hhead : keys.head? = some k)
    (hfollows : LowLinks.Follows edge edge' keys (key target)) :
    search.Recorded key next visible edge' (⟨k, pending⟩ :: frames) := by
  have hsame : ∀ {a}, a ≠ k → ∀ b, edge' a b ↔ edge a b := by
    intro a hne b
    rw [hfollows, hhead, Option.some.injEq]
    exact or_iff_left fun heq => hne heq.1.symm
  have hother : ∀ {a pending}, a ≠ k → Stands key next visible edge a pending →
      Stands key next visible edge' a pending := by
    rintro a pending hne ⟨node, seen, hvisible, hkey, hnext, hseen⟩
    exact ⟨node, seen, hvisible, hkey, hnext, fun b => by rw [hsame hne, hseen]⟩
  have hdistinct' := (List.nodup_cons.mp hdistinct).1
  constructor
  case opened =>
    intro frame hframe
    rcases List.mem_cons.mp hframe with rfl | hframe
    · obtain ⟨node, seen, hvisible, hkey, hnext, hseen⟩ := h.opened _ List.mem_cons_self
      refine ⟨node, seen ++ [target], hvisible, hkey, by simpa using hnext, fun b => ?_⟩
      rw [hfollows, hhead, hseen]
      simp only [List.mem_append, List.mem_singleton, true_and, or_and_right, exists_or,
        exists_eq_left]
      exact or_congr_right eq_comm
    · refine hother (fun heq => ?_) (h.opened frame (List.mem_cons_of_mem _ hframe))
      exact hdistinct' (List.mem_map.mpr ⟨frame, hframe, heq⟩)
  case completed =>
    intro a ha hframes
    have hne : a ≠ k := fun heq => hframes _ List.mem_cons_self heq.symm
    refine hother hne (h.completed a ha fun frame hframe => ?_)
    rcases List.mem_cons.mp hframe with rfl | hframe
    · exact fun heq => hne heq.symm
    · exact hframes frame (List.mem_cons_of_mem _ hframe)

omit [DecidableEq κ] in
/-- A node that is met has all of its edges before it. -/
theorem enter (h : search.Recorded key next visible edge frames) (hvisible : visible target)
    (hfresh : ∀ b, ¬ edge (key target) b) :
    (search.enter (key target)).Recorded key next visible edge
      (⟨key target, next target⟩ :: frames) := by
  constructor
  case opened =>
    intro frame hframe
    rcases List.mem_cons.mp hframe with rfl | hframe
    · exact ⟨target, [], hvisible, rfl, rfl, fun b => by simp [hfresh b]⟩
    · exact h.opened frame hframe
  case completed =>
    intro a ha hframes
    have hne : a ≠ key target := fun heq => hframes _ List.mem_cons_self heq.symm
    exact h.completed a ((List.mem_cons.mp ha).resolve_left hne)
      fun frame hframe => hframes frame (List.mem_cons_of_mem _ hframe)

/-- A node all of whose successors have been looked at is completed. -/
theorem leave (h : search.Recorded key next visible edge (⟨k, []⟩ :: frames)) :
    search.Recorded key next visible edge frames where
  opened frame hframe := h.opened frame (List.mem_cons_of_mem _ hframe)
  completed a ha hframes := by
    by_cases hak : a = k
    · rw [hak]
      exact h.opened _ List.mem_cons_self
    · refine h.completed a ha fun frame hframe => ?_
      rcases List.mem_cons.mp hframe with rfl | hframe
      · exact fun heq => hak heq.symm
      · exact hframes frame hframe

omit [DecidableEq κ] in
/-- Only the nodes met count. -/
theorem congr {other : Search κ} (h : search.Recorded key next visible edge frames)
    (hmet : other.met = search.met) : other.Recorded key next visible edge frames where
  opened := h.opened
  completed a ha := h.completed a (hmet ▸ ha)

end Recorded

/-! ## The loop -/

theorem met_note : (search.note k t).met = search.met := by
  obtain ⟨loops, heq, -⟩ := note_eq search k t
  rw [heq]
  rfl

theorem met_revisit : (search.revisit k t).met = search.met := by
  unfold revisit
  split <;> rfl

theorem met_leave {parent : Option κ} : (search.leave k parent).met = search.met := by
  have hpopped : (if search.lowOf k = search.indexOf k then search.pop k else search).met =
      search.met := by
    unfold pop
    dsimp only
    split
    · split <;> rfl
    · rfl
  unfold leave
  cases parent with
  | none => exact hpopped
  | some parent => exact hpopped

/-- The search is **in order** for some open nodes: it is sound, and the edges looked at are those
of the nodes met. -/
structure InOrder (key : α → κ) (next : α → List α) (visible : α → Prop) (edge : κ → κ → Prop)
    (frames : List (Frame α κ)) (search : Search κ) : Prop where
  /-- The search is sound. -/
  sound : search.Sound edge (frames.map Frame.key)
  /-- The edges looked at are recorded. -/
  recorded : search.Recorded key next visible edge frames

namespace InOrder

/-- The innermost open node has been met. -/
theorem mem_met (h : InOrder key next visible edge (⟨k, pending⟩ :: frames) search) :
    k ∈ search.met :=
  h.sound.stack_met k (h.sound.links.open_subset k List.mem_cons_self)

/-- A successor of the innermost open node is visible. -/
theorem visible_of_mem (h : InOrder key next visible edge (⟨k, pending⟩ :: frames) search)
    (hnext : ∀ node, visible node → ∀ target ∈ next node, visible target)
    (htarget : target ∈ pending) : visible target := by
  obtain ⟨node, seen, hvisible, -, heq, -⟩ := h.recorded.opened _ List.mem_cons_self
  exact hnext node hvisible target (heq ▸ List.mem_append_right _ htarget)

/-- An edge to a node that has been met keeps the search in order. -/
theorem revisit (h : InOrder key next visible edge (⟨k, target :: pending⟩ :: frames) search)
    (hmem : key target ∈ search.met) :
    ∃ edge', InOrder key next visible edge' (⟨k, pending⟩ :: frames)
      ((search.note k (key target)).revisit k (key target)) := by
  have hfollows : LowLinks.Follows edge (fun a b => edge a b ∨ some k = some a ∧ b = key target)
      (k :: frames.map Frame.key) (key target) := fun _ _ => Iff.rfl
  have hmet : ((search.note k (key target)).revisit k (key target)).met = search.met := by
    rw [met_revisit, met_note]
  exact ⟨_, h.sound.revisit hmem hfollows,
    (h.recorded.follow h.sound.links.open_nodup rfl hfollows).congr hmet⟩

/-- An edge to a node that has not been met keeps the search in order; the node is open then. -/
theorem enter (h : InOrder key next visible edge (⟨k, target :: pending⟩ :: frames) search)
    (hnew : key target ∉ search.met) (hvisible : visible target) :
    ∃ edge', InOrder key next visible edge'
      (⟨key target, next target⟩ :: ⟨k, pending⟩ :: frames) (search.enter (key target)) := by
  have hne : key target ≠ k := fun heq => hnew (heq ▸ h.mem_met)
  have hfollows : LowLinks.Follows edge (fun a b => edge a b ∨ some k = some a ∧ b = key target)
      (k :: frames.map Frame.key) (key target) := fun _ _ => Iff.rfl
  have hfresh : ∀ b, ¬ (edge (key target) b ∨ some k = some (key target) ∧ b = key target) := by
    rintro b (hold | ⟨heq, -⟩)
    · exact hnew (h.sound.edge_met _ b hold).1
    · exact hne (Option.some.inj heq).symm
  exact ⟨_, h.sound.enter hnew hfollows,
    (h.recorded.follow h.sound.links.open_nodup rfl hfollows).enter hvisible hfresh⟩

/-- Leaving a node keeps the search in order. -/
theorem leave (h : InOrder key next visible edge (⟨k, []⟩ :: frames) search) :
    InOrder key next visible edge frames (search.leave k (frames.head?.map Frame.key)) where
  sound := by
    rw [← List.head?_map]
    exact h.sound.leave
  recorded := h.recorded.leave.congr met_leave

/-- **Looking at the successors of a node** that have been met keeps the search in order. -/
theorem exists_follow (h : InOrder key next visible edge (⟨k, pending⟩ :: frames) search) :
    (follow key k pending search).1.met = search.met ∧
      ∃ edge', match follow key k pending search with
        | (followed, none) => InOrder key next visible edge' (⟨k, []⟩ :: frames) followed
        | (followed, some (target, left)) => key target ∉ search.met ∧
            InOrder key next visible edge' (⟨k, target :: left⟩ :: frames) followed := by
  induction pending generalizing search edge with
  | nil => exact ⟨rfl, edge, h⟩
  | cons target pending ih =>
    unfold follow
    dsimp only
    split
    · rename_i hmem
      have hmet : ((search.note k (key target)).revisit k (key target)).met = search.met := by
        rw [met_revisit, met_note]
      obtain ⟨middle, hmiddle⟩ := h.revisit hmem
      rw [← hmet]
      exact ih hmiddle
    · rename_i hnew
      have hnote : search.note k (key target) = search :=
        if_neg fun heq : key target = k => hnew (heq ▸ h.mem_met)
      rw [hnote]
      exact ⟨rfl, edge, hnew, h⟩

/-- **Looking at the successors of the open nodes** that have been met keeps the search in order. -/
theorem exists_advance (h : InOrder key next visible edge frames search) :
    (advance key frames search).1.met = search.met ∧
      ∃ edge', match advance key frames search with
        | (advanced, none) => InOrder key next visible edge' [] advanced
        | (advanced, some (target, left)) => key target ∉ search.met ∧
            ∃ k pending rest, left = ⟨k, pending⟩ :: rest ∧
              InOrder key next visible edge' (⟨k, target :: pending⟩ :: rest) advanced := by
  induction frames generalizing search edge with
  | nil => exact ⟨rfl, edge, h⟩
  | cons frame rest ih =>
    obtain ⟨hmet, middle, hmiddle⟩ := h.exists_follow
    unfold advance
    split
    · rename_i followed target left heq
      rw [heq] at hmet hmiddle
      exact ⟨hmet, middle, hmiddle.1, frame.key, left, rest, rfl, hmiddle.2⟩
    · rename_i followed heq
      rw [heq] at hmet hmiddle
      have hleft : (followed.leave frame.key (rest.head?.map Frame.key)).met = search.met :=
        met_leave.trans hmet
      rw [← hleft]
      exact ih hmiddle.leave

end InOrder

/-- The keys of some list that have not been met. -/
def unmet (keys : List κ) (search : Search κ) : List κ :=
  keys.filter (· ∉ search.met)

/-- Meeting a new key leaves less to be met. -/
theorem length_unmet_enter_lt {keys : List κ} (hk : k ∈ keys) (hnew : k ∉ search.met) :
    ((search.enter k).unmet keys).length < (search.unmet keys).length := by
  have hfilter : (search.enter k).unmet keys = (search.unmet keys).filter (· ≠ k) := by
    rw [unmet, unmet, List.filter_filter]
    refine List.filter_congr fun a _ => ?_
    simp [not_or]
  rw [hfilter, List.length_filter_lt_length_iff_exists]
  exact ⟨k, by simp [unmet, hk, hnew], by simp⟩

/-- The loop ends when no node is open. -/
theorem run_of_advance_none {room : Nat} {advanced : Search κ}
    (h : advance key frames search = (advanced, none)) :
    run key next room frames search = advanced := by
  unfold run
  rw [h]

/-- The loop goes on with a node that has not been met. -/
theorem run_of_advance_some {room : Nat} {advanced : Search κ} {left : List (Frame α κ)}
    (h : advance key frames search = (advanced, some (target, left))) :
    run key next (room + 1) frames search =
      run key next room (⟨key target, next target⟩ :: left) (advanced.enter (key target)) := by
  rw [run.eq_def, h]

/-- **The loop keeps the search in order**, and none of the nodes is open when it ends. -/
theorem InOrder.exists_run (h : InOrder key next visible edge frames search)
    (hnext : ∀ node, visible node → ∀ target ∈ next node, visible target) {keys : List κ}
    (hkeys : ∀ node, visible node → key node ∈ keys) {room : Nat}
    (hroom : (search.unmet keys).length ≤ room) :
    (∃ edge', InOrder key next visible edge' [] (run key next room frames search)) ∧
      ∀ a ∈ search.met, a ∈ (run key next room frames search).met := by
  -- on the room: each node that is met takes some
  induction room using Nat.strong_induction_on generalizing frames search edge with
  | _ room ih =>
    obtain ⟨hmet, middle, hmiddle⟩ := h.exists_advance
    cases hadvance : advance key frames search with
    | mk advanced outcome =>
      rw [hadvance] at hmet hmiddle
      dsimp only at hmet
      cases outcome with
      | none =>
        rw [run_of_advance_none hadvance]
        exact ⟨⟨middle, hmiddle⟩, fun a ha => hmet ▸ ha⟩
      | some found =>
        obtain ⟨target, left⟩ := found
        obtain ⟨hnew, k, pending, rest, rfl, hopen⟩ := hmiddle
        have hvisible := hopen.visible_of_mem hnext List.mem_cons_self
        have hunmet : advanced.unmet keys = search.unmet keys := by
          rw [unmet, unmet, hmet]
        rw [← hmet] at hnew
        have hless := length_unmet_enter_lt (hkeys target hvisible) hnew
        rw [hunmet] at hless
        obtain ⟨room, rfl⟩ : ∃ left, room = left + 1 := Nat.exists_eq_add_one.mpr (by omega)
        obtain ⟨edge', hentered⟩ := hopen.enter hnew hvisible
        obtain ⟨hdone, hkept⟩ := ih room (Nat.lt_succ_self room) hentered (by omega)
        rw [run_of_advance_some hadvance]
        refine ⟨hdone, fun a ha => hkept a (List.mem_cons_of_mem _ ?_)⟩
        show a ∈ advanced.met
        rwa [hmet]

/-- **Searching from a node keeps the search in order**, and the node has been met then. -/
theorem InOrder.exists_start (h : InOrder key next visible edge [] search)
    (hnext : ∀ node, visible node → ∀ target ∈ next node, visible target) {keys : List κ}
    (hkeys : ∀ node, visible node → key node ∈ keys) {room : Nat} (hroom : keys.length ≤ room)
    {node : α} (hvisible : visible node) :
    (∃ edge', InOrder key next visible edge' [] (start key next room search node)) ∧
      (∀ a ∈ search.met, a ∈ (start key next room search node).met) ∧
      key node ∈ (start key next room search node).met := by
  unfold start
  split
  · rename_i hmem
    exact ⟨⟨edge, h⟩, fun _ ha => ha, hmem⟩
  · rename_i hnew
    have hfollows : LowLinks.Follows edge edge [] (key node) := fun a b => by simp
    have hfresh : ∀ b, ¬ edge (key node) b :=
      fun b hedge => hnew (h.sound.edge_met _ b hedge).1
    have hentered : InOrder key next visible edge [⟨key node, next node⟩]
        (search.enter (key node)) :=
      ⟨h.sound.enter hnew hfollows, h.recorded.enter hvisible hfresh⟩
    obtain ⟨hdone, hkept⟩ := hentered.exists_run hnext hkeys
      ((List.length_filter_le _ _).trans hroom)
    exact ⟨hdone, fun a ha => hkept a (List.mem_cons_of_mem _ ha), hkept _ List.mem_cons_self⟩

/-- Searching from several nodes keeps the search in order, and all of them have been met then. -/
theorem InOrder.exists_foldl_start (h : InOrder key next visible edge [] search)
    (hnext : ∀ node, visible node → ∀ target ∈ next node, visible target) {keys : List κ}
    (hkeys : ∀ node, visible node → key node ∈ keys) {room : Nat} (hroom : keys.length ≤ room)
    {nodes : List α} (hvisible : ∀ node ∈ nodes, visible node) :
    (∃ edge', InOrder key next visible edge' [] (nodes.foldl (start key next room) search)) ∧
      (∀ a ∈ search.met, a ∈ (nodes.foldl (start key next room) search).met) ∧
      ∀ node ∈ nodes, key node ∈ (nodes.foldl (start key next room) search).met := by
  induction nodes generalizing search edge with
  | nil => exact ⟨⟨edge, h⟩, fun _ ha => ha, by simp⟩
  | cons node rest ih =>
    obtain ⟨⟨middle, hmiddle⟩, hkept, hmet⟩ := h.exists_start hnext hkeys hroom
      (hvisible node List.mem_cons_self)
    obtain ⟨hdone, hkept', hmets⟩ :=
      ih hmiddle (fun n hn => hvisible n (List.mem_cons_of_mem _ hn))
    refine ⟨hdone, fun a ha => hkept' a (hkept a ha), fun n hn => ?_⟩
    rcases List.mem_cons.mp hn with rfl | hn
    · exact hkept' _ hmet
    · exact hmets n hn

end Search

/-! ## What the search finds -/

variable {key : α → κ} {next : α → List α} {visible : α → Prop} {nodes : List α}
  {edge : κ → κ → Prop} {met : κ → Prop}

/-- A walk from some nodes has **covered** a graph of keys: for each key that it has met there is a
node that stands for it, and the edges of the key are those of that node. -/
structure Covers (key : α → κ) (next : α → List α) (visible : α → Prop) (nodes : List α)
    (edge : κ → κ → Prop) (met : κ → Prop) : Prop where
  /-- The nodes have been met. -/
  starts : ∀ node ∈ nodes, met (key node)
  /-- Edges go from and to keys that have been met. -/
  edge_met : ∀ a b, edge a b → met a ∧ met b
  /-- A node stands for each key. -/
  stands : ∀ k, met k → ∃ node, visible node ∧ key node = k ∧
    ∀ b, edge k b ↔ ∃ target ∈ next node, key target = b

/-- **The search finds the cyclic components** of the graph that it covers. -/
theorem exists_cyclicComponents
    (hnext : ∀ node, visible node → ∀ target ∈ next node, visible target) {keys : List κ}
    (hkeys : ∀ node, visible node → key node ∈ keys) {room : Nat} (hroom : keys.length ≤ room)
    (hvisible : ∀ node ∈ nodes, visible node) :
    ∃ edge met, Covers key next visible nodes edge met ∧
      CyclicComponents edge met (cycles key next room nodes) := by
  have hempty : ({} : Search κ).Recorded key next visible (fun _ _ => False) [] := by
    constructor <;> simp [Search.met]
  have hstart : ({} : Search κ).InOrder key next visible (fun _ _ => False) [] :=
    ⟨Search.sound_empty, hempty⟩
  obtain ⟨⟨edge, hsound, hrecorded⟩, -, hmets⟩ :=
    hstart.exists_foldl_start hnext hkeys hroom hvisible
  have hfinal : (nodes.foldl (Search.start key next room) {}).stack = [] :=
    hsound.links.stack_eq_nil
  refine ⟨edge, fun a => a ∈ (nodes.foldl (Search.start key next room) {}).met,
    ⟨hmets, hsound.edge_met, fun k hk => ?_⟩, ?_⟩
  · obtain ⟨node, seen, hnode, hkey, hsplit, hseen⟩ := hrecorded.completed k hk (by simp)
    rw [List.append_nil] at hsplit
    exact ⟨node, hnode, hkey, hsplit ▸ hseen⟩
  · have hcyclic := hsound.cyclic
    simp only [hfinal, List.not_mem_nil, not_false_eq_true, and_true] at hcyclic
    exact hcyclic

end FrancaLint.Graph
