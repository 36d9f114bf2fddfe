import FrancaLint.Proofs.Graph.Components
import Mathlib.Data.List.Find
import Mathlib.Data.List.Pairwise
import Mathlib.Order.MinMax
import Mathlib.Order.Nat

/-! # Low-links

Why the low-links of a depth-first walk tell where a component begins. The nodes on the stack are
numbered from the bottom up. Some of them are open, and the graph has the edges that the walk has
looked at.

* `LowLinks`, the invariant of the walk: an open node leads to everything above it on the stack,
  every node on the stack leads to an open one that is not above it, and the low-link of an open
  node bounds the edges back from its part of the stack.
* `LowLinks.enter`, `LowLinks.revisit`, `LowLinks.leave` and `LowLinks.pop`: the steps of the walk
  keep it.
* `LowLinks.isComponent_above`: a node whose low-link is its own number is the first one of its
  component, which are the nodes from it up. -/

namespace FrancaLint.Graph

open Relation

variable {κ : Type}

/-- The open node to whose part of the stack a node belongs: the innermost one that is not above
it. -/
def openBelow (num : κ → Nat) (open_ : List κ) (a : κ) : Option κ :=
  open_.find? fun z => num z ≤ num a

/-- A member of the upper part of a stack is a member of the stack. -/
theorem mem_stack_of_mem_above {above below : List κ} {k a : κ} (h : a ∈ above ++ [k]) :
    a ∈ above ++ k :: below := by
  simp only [List.mem_append, List.mem_cons, List.not_mem_nil, or_false] at h ⊢
  exact h.imp_right Or.inl

/-- The **invariant** of low-links. Open nodes are listed with the innermost one first, and the
stack with its top first. -/
structure LowLinks (edge : κ → κ → Prop) (num low : κ → Nat) (open_ stack : List κ) : Prop where
  /-- The stack is numbered from the bottom up. -/
  sorted : stack.Pairwise fun upper lower => num lower < num upper
  /-- Open nodes are listed from the top down. -/
  open_sorted : open_.Pairwise fun inner outer => num outer < num inner
  /-- Open nodes are on the stack. -/
  open_subset : ∀ z ∈ open_, z ∈ stack
  /-- Edges do not come back to the stack. -/
  closed : ∀ a b, edge a b → a ∉ stack → b ∉ stack
  /-- A node on the stack leads to an open one that is not above it. -/
  to_open : ∀ a ∈ stack, ∃ z ∈ open_, num z ≤ num a ∧ ReflTransGen edge a z
  /-- An open node leads to everything above it. -/
  from_open : ∀ z ∈ open_, ∀ a ∈ stack, num z ≤ num a → ReflTransGen edge z a
  /-- Every node above an open one has an edge from a node between them or from the open one. -/
  spreads : ∀ z ∈ open_, ∀ b ∈ stack, num z < num b →
    ∃ a ∈ stack, num z ≤ num a ∧ num a < num b ∧ edge a b
  /-- An open node leads to the node that its low-link numbers. -/
  low_reached : ∀ z ∈ open_, ∃ a ∈ stack, num a = low z ∧ ReflTransGen edge z a
  /-- That node is not above it. -/
  low_le : ∀ z ∈ open_, low z ≤ num z
  /-- From the part of the stack that belongs to an open node, edges lead to no node below the one
  that its low-link numbers. -/
  low_bound : ∀ a ∈ stack, ∀ b ∈ stack, edge a b →
    ∀ z, openBelow num open_ a = some z → low z ≤ num b

variable {edge edge' : κ → κ → Prop} {num low low' : κ → Nat}
  {open_ rest stack above below : List κ} {k t a b : κ}

/-- The innermost open node is that of everything above it. -/
theorem openBelow_cons_of_le (h : num k ≤ num a) : openBelow num (k :: rest) a = some k := by
  simp [openBelow, h]

/-- What is below the innermost open node belongs to another one. -/
theorem openBelow_cons_of_lt (h : num a < num k) :
    openBelow num (k :: rest) a = openBelow num rest a := by
  simp [openBelow, Nat.not_le.mpr h]

namespace LowLinks

/-- Only the numbers and low-links of nodes on the stack count. -/
theorem congr {num' : κ → Nat} (h : LowLinks edge num low open_ stack)
    (hnum : ∀ a ∈ stack, num' a = num a) (hlow : ∀ z ∈ open_, low' z = low z) :
    LowLinks edge num' low' open_ stack := by
  have hopen : ∀ z ∈ open_, num' z = num z := fun z hz => hnum z (h.open_subset z hz)
  have hbelow : ∀ a ∈ stack, openBelow num' open_ a = openBelow num open_ a := by
    intro a ha
    unfold openBelow
    have hcongr : ∀ z ∈ open_, decide (num' z ≤ num' a) = decide (num z ≤ num a) := by
      intro z hz
      rw [hopen z hz, hnum a ha]
    exact List.find?_congr hcongr
  constructor
  case sorted =>
    refine h.sorted.imp_of_mem ?_
    intro upper lower hupper hlower hlt
    rwa [hnum upper hupper, hnum lower hlower]
  case open_sorted =>
    refine h.open_sorted.imp_of_mem ?_
    intro inner outer hinner houter hlt
    rwa [hopen inner hinner, hopen outer houter]
  case open_subset => exact h.open_subset
  case closed => exact h.closed
  case to_open =>
    intro a ha
    obtain ⟨z, hz, hle, hpath⟩ := h.to_open a ha
    exact ⟨z, hz, by rwa [hopen z hz, hnum a ha], hpath⟩
  case from_open =>
    intro z hz a ha hle
    rw [hopen z hz, hnum a ha] at hle
    exact h.from_open z hz a ha hle
  case spreads =>
    intro z hz b hb hlt
    rw [hopen z hz, hnum b hb] at hlt
    obtain ⟨a, ha, hle, hlt', hedge⟩ := h.spreads z hz b hb hlt
    exact ⟨a, ha, by rwa [hopen z hz, hnum a ha], by rwa [hnum a ha, hnum b hb], hedge⟩
  case low_reached =>
    intro z hz
    obtain ⟨a, ha, heq, hpath⟩ := h.low_reached z hz
    exact ⟨a, ha, by rw [hnum a ha, heq, hlow z hz], hpath⟩
  case low_le =>
    intro z hz
    rw [hlow z hz, hopen z hz]
    exact h.low_le z hz
  case low_bound =>
    intro a ha b hb hedge z hz
    rw [hbelow a ha] at hz
    rw [hlow z (List.mem_of_find?_eq_some hz), hnum b hb]
    exact h.low_bound a ha b hb hedge z hz

/-- The walk has found nothing yet. -/
theorem nil (edge : κ → κ → Prop) (num low : κ → Nat) : LowLinks edge num low [] [] := by
  constructor <;> simp

/-- No open node is listed twice. -/
theorem open_nodup (h : LowLinks edge num low open_ stack) : open_.Nodup := by
  refine h.open_sorted.imp ?_
  rintro inner _ hlt rfl
  exact lt_irrefl _ hlt

/-- When no node is open, the stack is empty. -/
theorem stack_eq_nil (h : LowLinks edge num low [] stack) : stack = [] := by
  rw [List.eq_nil_iff_forall_not_mem]
  intro a ha
  obtain ⟨z, hz, -⟩ := h.to_open a ha
  exact List.not_mem_nil hz

/-- On the stack the number tells nodes apart. -/
theorem eq_of_num_eq (h : LowLinks edge num low open_ stack) (ha : a ∈ stack) (hb : b ∈ stack)
    (heq : num a = num b) : a = b := by
  by_contra hne
  have hpair : stack.Pairwise fun x y => num x ≠ num y :=
    h.sorted.imp fun hlt => (ne_of_lt hlt).symm
  have : Std.Symm fun x y : κ => num x ≠ num y := ⟨fun _ _ hxy => hxy.symm⟩
  exact hpair.forall ha hb hne heq

/-! ## Going down -/

/-- An edge that the walk looks at: it starts at the innermost open node, if there is one. -/
def Follows (edge edge' : κ → κ → Prop) (open_ : List κ) (t : κ) : Prop :=
  ∀ a b, edge' a b ↔ edge a b ∨ open_.head? = some a ∧ b = t

/-- Edges are kept when the walk looks at another one. -/
theorem Follows.mono (h : Follows edge edge' open_ t) (hedge : edge a b) : edge' a b :=
  (h a b).mpr (Or.inl hedge)

/-- Paths are kept when the walk looks at another edge. -/
theorem Follows.leads (h : Follows edge edge' open_ t) (hpath : ReflTransGen edge a b) :
    ReflTransGen edge' a b :=
  ReflTransGen.mono (fun _ _ => h.mono) _ _ hpath

/-- Going down to a new node keeps the invariant. -/
theorem enter (h : LowLinks edge num low open_ stack) (hfollows : Follows edge edge' open_ k)
    (hnew : ∀ a b, edge a b → a ≠ k ∧ b ≠ k) (hnum : ∀ a ∈ stack, num a < num k)
    (hlow : low k = num k) : LowLinks edge' num low (k :: open_) (k :: stack) := by
  have hfresh : k ∉ stack := fun hmem => lt_irrefl _ (hnum k hmem)
  have hparent : ∀ z ∈ open_, ∃ top ∈ stack, num z ≤ num top ∧ edge' top k := by
    intro z hz
    cases open_ with
    | nil => exact absurd hz List.not_mem_nil
    | cons top rest =>
      refine ⟨top, h.open_subset top List.mem_cons_self, ?_,
        (hfollows top k).mpr (Or.inr ⟨rfl, rfl⟩)⟩
      rcases List.mem_cons.mp hz with rfl | hz
      · exact le_rfl
      · exact ((List.pairwise_cons.mp h.open_sorted).1 z hz).le
  constructor
  case sorted => exact List.pairwise_cons.mpr ⟨hnum, h.sorted⟩
  case open_sorted =>
    exact List.pairwise_cons.mpr ⟨fun z hz => hnum z (h.open_subset z hz), h.open_sorted⟩
  case open_subset =>
    intro z hz
    rcases List.mem_cons.mp hz with rfl | hz
    · exact List.mem_cons_self
    · exact List.mem_cons_of_mem _ (h.open_subset z hz)
  case closed =>
    intro a b hedge ha
    rw [List.mem_cons, not_or] at ha ⊢
    rcases (hfollows a b).mp hedge with hold | ⟨hhead, -⟩
    · exact ⟨(hnew a b hold).2, h.closed a b hold ha.2⟩
    · exact absurd (h.open_subset a (List.mem_of_mem_head? hhead)) ha.2
  case to_open =>
    intro a ha
    rcases List.mem_cons.mp ha with rfl | ha
    · exact ⟨a, List.mem_cons_self, le_rfl, .refl⟩
    · obtain ⟨z, hz, hle, hpath⟩ := h.to_open a ha
      exact ⟨z, List.mem_cons_of_mem _ hz, hle, hfollows.leads hpath⟩
  case from_open =>
    intro z hz a ha hle
    rcases List.mem_cons.mp hz with rfl | hz' <;> rcases List.mem_cons.mp ha with rfl | ha'
    · exact .refl
    · exact absurd hle (Nat.not_le.mpr (hnum a ha'))
    · obtain ⟨top, htop, hle, hedge⟩ := hparent z hz'
      exact (hfollows.leads (h.from_open z hz' top htop hle)).tail hedge
    · exact hfollows.leads (h.from_open z hz' a ha' hle)
  case spreads =>
    intro z hz b hb hlt
    rcases List.mem_cons.mp hz with rfl | hz' <;> rcases List.mem_cons.mp hb with rfl | hb'
    · exact absurd hlt (lt_irrefl _)
    · exact absurd hlt (Nat.not_lt.mpr (hnum b hb').le)
    · -- the new node has an edge from the innermost open one
      obtain ⟨top, htop, hle, hedge⟩ := hparent z hz'
      exact ⟨top, List.mem_cons_of_mem _ htop, hle, hnum top htop, hedge⟩
    · obtain ⟨a, ha, hle, hlt', hedge⟩ := h.spreads z hz' b hb' hlt
      exact ⟨a, List.mem_cons_of_mem _ ha, hle, hlt', hfollows.mono hedge⟩
  case low_reached =>
    intro z hz
    rcases List.mem_cons.mp hz with rfl | hz
    · exact ⟨z, List.mem_cons_self, hlow.symm, .refl⟩
    · obtain ⟨a, ha, heq, hpath⟩ := h.low_reached z hz
      exact ⟨a, List.mem_cons_of_mem _ ha, heq, hfollows.leads hpath⟩
  case low_le =>
    intro z hz
    rcases List.mem_cons.mp hz with rfl | hz
    · exact hlow.le
    · exact h.low_le z hz
  case low_bound =>
    intro a ha b hb hedge z hz
    rcases (hfollows a b).mp hedge with hold | ⟨hhead, rfl⟩
    · have ha' := (List.mem_cons.mp ha).resolve_left (hnew a b hold).1
      have hb' := (List.mem_cons.mp hb).resolve_left (hnew a b hold).2
      rw [openBelow_cons_of_lt (hnum a ha')] at hz
      exact h.low_bound a ha' b hb' hold z hz
    · -- the new edge leads up
      have hopen := List.mem_of_mem_head? hhead
      rw [openBelow_cons_of_lt (hnum a (h.open_subset a hopen))] at hz
      have hz' := List.mem_of_find?_eq_some hz
      exact (h.low_le z hz').trans (hnum z (h.open_subset z hz')).le

/-- Looking at an edge to a node met before keeps the invariant, if the low-link takes notice of a
node on the stack. -/
theorem revisit (h : LowLinks edge num low (k :: rest) stack)
    (hfollows : Follows edge edge' (k :: rest) t) (hother : ∀ z, z ≠ k → low' z = low z)
    (hout : t ∉ stack → low' k = low k) (hin : t ∈ stack → low' k = min (low k) (num t)) :
    LowLinks edge' num low' (k :: rest) stack := by
  have hedge : edge' k t := (hfollows k t).mpr (Or.inr ⟨rfl, rfl⟩)
  have hle : ∀ z, low' z ≤ low z := by
    intro z
    by_cases hz : z = k
    · subst hz
      by_cases ht : t ∈ stack
      · rw [hin ht]
        exact min_le_left _ _
      · exact (hout ht).le
    · exact (hother z hz).le
  have hk := h.open_subset k List.mem_cons_self
  constructor
  case sorted => exact h.sorted
  case open_sorted => exact h.open_sorted
  case open_subset => exact h.open_subset
  case closed =>
    intro a b hab ha
    rcases (hfollows a b).mp hab with hold | ⟨hhead, -⟩
    · exact h.closed a b hold ha
    · exact absurd (h.open_subset a (List.mem_of_mem_head? hhead)) ha
  case to_open =>
    intro a ha
    obtain ⟨z, hz, hnum, hpath⟩ := h.to_open a ha
    exact ⟨z, hz, hnum, hfollows.leads hpath⟩
  case from_open => exact fun z hz a ha hnum => hfollows.leads (h.from_open z hz a ha hnum)
  case spreads =>
    intro z hz b hb hlt
    obtain ⟨a, ha, hnum, hlt', hab⟩ := h.spreads z hz b hb hlt
    exact ⟨a, ha, hnum, hlt', hfollows.mono hab⟩
  case low_reached =>
    intro z hz
    obtain ⟨a, ha, heq, hpath⟩ := h.low_reached z hz
    have hkept : low' z = low z → ∃ a ∈ stack, num a = low' z ∧ ReflTransGen edge' z a :=
      fun hlow => ⟨a, ha, heq.trans hlow.symm, hfollows.leads hpath⟩
    by_cases hzk : z = k
    · subst hzk
      by_cases ht : t ∈ stack
      · rcases min_choice (low z) (num t) with hmin | hmin
        · exact hkept ((hin ht).trans hmin)
        · exact ⟨t, ht, ((hin ht).trans hmin).symm, .single hedge⟩
      · exact hkept (hout ht)
    · exact hkept (hother z hzk)
  case low_le => exact fun z hz => (hle z).trans (h.low_le z hz)
  case low_bound =>
    intro a ha b hb hab z hz
    rcases (hfollows a b).mp hab with hold | ⟨hhead, rfl⟩
    · exact (hle z).trans (h.low_bound a ha b hb hold z hz)
    · obtain rfl : k = a := by simpa using hhead
      rw [openBelow_cons_of_le le_rfl, Option.some.injEq] at hz
      rw [← hz, hin hb]
      exact min_le_right _ _

/-! ## Going up -/

/-- When a node is left that leads below itself, it belongs to the part of the node that it was met
from, whose low-link takes notice of it. -/
theorem leave {parent : κ} (h : LowLinks edge num low (k :: parent :: rest) stack)
    (hlow : low k < num k) (hother : ∀ z, z ≠ parent → low' z = low z)
    (hparent : low' parent = min (low parent) (low k)) :
    LowLinks edge num low' (parent :: rest) stack := by
  obtain ⟨hinner, hsorted⟩ := List.pairwise_cons.mp h.open_sorted
  have hk := h.open_subset k List.mem_cons_self
  have hlt : num parent < num k := hinner parent List.mem_cons_self
  have hsub : ∀ z ∈ parent :: rest, z ∈ k :: parent :: rest := fun z => List.mem_cons_of_mem k
  have hle : ∀ z, low' z ≤ low z := by
    intro z
    by_cases hz : z = parent
    · rw [hz, hparent]
      exact min_le_left _ _
    · exact (hother z hz).le
  obtain ⟨target, htarget, hnum, hdown⟩ := h.low_reached k List.mem_cons_self
  constructor
  case sorted => exact h.sorted
  case open_sorted => exact hsorted
  case open_subset => exact fun z hz => h.open_subset z (hsub z hz)
  case closed => exact h.closed
  case to_open =>
    intro a ha
    obtain ⟨z, hz, hza, hpath⟩ := h.to_open a ha
    rcases List.mem_cons.mp hz with rfl | hz
    · -- the node left leads below itself, and from there to an open node
      obtain ⟨y, hy, hyt, hpath'⟩ := h.to_open target htarget
      have hyz : num y < num z := by omega
      have hne : y ≠ z := fun heq => lt_irrefl _ (heq ▸ hyz)
      exact ⟨y, (List.mem_cons.mp hy).resolve_left hne, by omega,
        (hpath.trans hdown).trans hpath'⟩
    · exact ⟨z, hz, hza, hpath⟩
  case from_open => exact fun z hz => h.from_open z (hsub z hz)
  case spreads => exact fun z hz => h.spreads z (hsub z hz)
  case low_reached =>
    intro z hz
    by_cases hzp : z = parent
    · subst hzp
      rcases min_choice (low z) (low k) with hmin | hmin
      · obtain ⟨a, ha, heq, hpath⟩ := h.low_reached z (hsub z hz)
        exact ⟨a, ha, heq.trans (hparent.trans hmin).symm, hpath⟩
      · have hup := h.from_open z (hsub z hz) k hk hlt.le
        exact ⟨target, htarget, hnum.trans (hparent.trans hmin).symm, hup.trans hdown⟩
    · obtain ⟨a, ha, heq, hpath⟩ := h.low_reached z (hsub z hz)
      exact ⟨a, ha, heq.trans (hother z hzp).symm, hpath⟩
  case low_le => exact fun z hz => (hle z).trans (h.low_le z (hsub z hz))
  case low_bound =>
    intro a ha b hb hedge z hz
    by_cases hka : num k ≤ num a
    · -- the part of the node left now belongs to the node that it was met from
      have hbound := h.low_bound a ha b hb hedge k (openBelow_cons_of_le hka)
      rw [openBelow_cons_of_le (hlt.le.trans hka), Option.some.injEq] at hz
      rw [← hz, hparent]
      exact (min_le_right _ _).trans hbound
    · have hbound := h.low_bound a ha b hb hedge z
      rw [openBelow_cons_of_lt (Nat.not_le.mp hka)] at hbound
      exact (hle z).trans (hbound hz)

/-- The only open node leads to nothing below itself. -/
theorem low_eq_of_singleton (h : LowLinks edge num low [k] stack) : low k = num k := by
  obtain ⟨a, ha, hnum, -⟩ := h.low_reached k List.mem_cons_self
  obtain ⟨z, hz, hle, -⟩ := h.to_open a ha
  rw [List.mem_singleton.mp hz, hnum] at hle
  exact le_antisymm (h.low_le k List.mem_cons_self) hle

/-! ## Components -/

section Component

variable (h : LowLinks edge num low (k :: rest) (above ++ k :: below))
include h

/-- The nodes from an innermost open node up are those with its number or a higher one. -/
theorem mem_above_iff (ha : a ∈ above ++ k :: below) : a ∈ above ++ [k] ↔ num k ≤ num a := by
  obtain ⟨-, hlower, habove⟩ := List.pairwise_append.mp h.sorted
  have hbelow := (List.pairwise_cons.mp hlower).1
  constructor
  · intro hmem
    rcases List.mem_append.mp hmem with hmem | hmem
    · exact (habove a hmem k List.mem_cons_self).le
    · rw [List.mem_singleton.mp hmem]
  · intro hle
    rcases List.mem_append.mp ha with hmem | hmem
    · exact List.mem_append_left _ hmem
    rcases List.mem_cons.mp hmem with rfl | hmem
    · simp
    · exact absurd hle (Nat.not_le.mpr (hbelow a hmem))

/-- The nodes below it are those with a lower number. -/
theorem mem_below_iff (ha : a ∈ above ++ k :: below) : a ∈ below ↔ num a < num k := by
  obtain ⟨-, hlower, habove⟩ := List.pairwise_append.mp h.sorted
  have hbelow := (List.pairwise_cons.mp hlower).1
  refine ⟨hbelow a, fun hlt => ?_⟩
  rcases List.mem_append.mp ha with hmem | hmem
  · exact absurd hlt (Nat.not_lt.mpr (habove a hmem k List.mem_cons_self).le)
  rcases List.mem_cons.mp hmem with rfl | hmem
  · exact absurd hlt (lt_irrefl _)
  · exact hmem

variable (hlow : low k = num k)
include hlow

/-- From the nodes above a node whose low-link is its own number, paths lead to such nodes or leave
the stack. -/
theorem leads_above (hka : num k ≤ num a)
    (hpath : ReflTransGen edge a b) : b ∈ above ++ k :: below → num k ≤ num b := by
  induction hpath with
  | refl => exact fun _ => hka
  | @tail b c hab hbc ih =>
    intro hc
    -- the path has not left the stack, as it would not have come back
    have hb : b ∈ above ++ k :: below := by
      by_contra hout
      exact h.closed b c hbc hout hc
    have hbound := h.low_bound b hb c hc hbc k (openBelow_cons_of_le (ih hb))
    rwa [hlow] at hbound

/-- **The first node of a component.** A node whose successors have been looked at and whose
low-link is its own number is the first of its component: the others are the nodes above it. -/
theorem isComponent_above : IsComponent edge (above ++ [k]) := by
  have hk : k ∈ above ++ k :: below := h.open_subset k List.mem_cons_self
  have hstack : ∀ {a}, a ∈ above ++ [k] → a ∈ above ++ k :: below := mem_stack_of_mem_above
  have hnodup : (above ++ [k]).Nodup := by
    refine ((h.sorted.imp fun hlt heq => ?_) : (above ++ k :: below).Nodup).sublist ?_
    · exact lt_irrefl _ (heq ▸ hlt)
    · simp
  refine ⟨hnodup, k, by simp, fun a => ⟨fun ha => ?_, ?_⟩⟩
  · have hka := (h.mem_above_iff (hstack ha)).mp ha
    refine ⟨h.from_open k List.mem_cons_self a (hstack ha) hka, ?_⟩
    -- the open node that `a` leads to is not below `k`
    obtain ⟨z, hz, -, hpath⟩ := h.to_open a (hstack ha)
    have hkz := h.leads_above hlow hka hpath (h.open_subset z hz)
    rcases List.mem_cons.mp hz with rfl | hz
    · exact hpath
    · exact absurd hkz (Nat.not_le.mpr ((List.pairwise_cons.mp h.open_sorted).1 z hz))
  · rintro ⟨hto, hback⟩
    have ha : a ∈ above ++ k :: below := by
      by_contra hout
      -- a path that leaves the stack does not come back to `k`
      suffices k ∉ above ++ k :: below from this hk
      clear hto
      induction hback using ReflTransGen.head_induction_on with
      | refl => exact hout
      | head hedge _ ih => exact ih (h.closed _ _ hedge hout)
    exact (h.mem_above_iff ha).mpr (h.leads_above hlow le_rfl hto ha)

/-- Taking a component from the stack keeps the invariant. -/
theorem pop : LowLinks edge num low rest below := by
  obtain ⟨hinner, hsorted⟩ := List.pairwise_cons.mp h.open_sorted
  have hstack : ∀ {a}, a ∈ below → a ∈ above ++ k :: below :=
    fun ha => List.mem_append_right _ (List.mem_cons_of_mem _ ha)
  have hlt : ∀ {a}, a ∈ below → num a < num k := fun ha => (h.mem_below_iff (hstack ha)).mp ha
  have hkept : ∀ {a}, a ∈ above ++ k :: below → num a < num k → a ∈ below :=
    fun ha => (h.mem_below_iff ha).mpr
  have hsub : ∀ {z}, z ∈ rest → z ∈ k :: rest := List.mem_cons_of_mem _
  constructor
  case sorted => exact (List.pairwise_cons.mp (List.pairwise_append.mp h.sorted).2.1).2
  case open_sorted => exact hsorted
  case open_subset => exact fun z hz => hkept (h.open_subset z (hsub hz)) (hinner z hz)
  case closed =>
    intro a b hedge ha hb
    by_cases hmem : a ∈ above ++ k :: below
    · have hka : num k ≤ num a := Nat.not_lt.mp fun hlt => ha (hkept hmem hlt)
      exact absurd (h.leads_above hlow hka (.single hedge) (hstack hb))
        (Nat.not_le.mpr (hlt hb))
    · exact h.closed a b hedge hmem (hstack hb)
  case to_open =>
    intro a ha
    obtain ⟨z, hz, hza, hpath⟩ := h.to_open a (hstack ha)
    have hne : z ≠ k := fun heq => absurd (hlt ha) (Nat.not_lt.mpr (heq ▸ hza))
    exact ⟨z, (List.mem_cons.mp hz).resolve_left hne, hza, hpath⟩
  case from_open => exact fun z hz a ha => h.from_open z (hsub hz) a (hstack ha)
  case spreads =>
    intro z hz b hb hzb
    obtain ⟨a, ha, hza, hab, hedge⟩ := h.spreads z (hsub hz) b (hstack hb) hzb
    exact ⟨a, hkept ha (hab.trans (hlt hb)), hza, hab, hedge⟩
  case low_reached =>
    intro z hz
    obtain ⟨a, ha, heq, hpath⟩ := h.low_reached z (hsub hz)
    have hle := h.low_le z (hsub hz)
    have hzk := hinner z hz
    exact ⟨a, hkept ha (by omega), heq, hpath⟩
  case low_le => exact fun z hz => h.low_le z (hsub hz)
  case low_bound =>
    intro a ha b hb hedge z hz
    refine h.low_bound a (hstack ha) b (hstack hb) hedge z ?_
    rwa [openBelow_cons_of_lt (hlt ha)]

omit hlow in
/-- In the order of their numbers, the nodes of a component spread from the first one. -/
theorem spreadsFromFirst {component : List κ} (hmem : ∀ a, a ∈ component ↔ a ∈ above ++ [k])
    (hnodup : component.Nodup) (hsorted : component.Pairwise fun a b => num a ≤ num b) :
    SpreadsFromFirst edge component := by
  rintro earlier b later rfl hne
  have hstack : ∀ {a}, a ∈ earlier ++ b :: later → a ∈ above ++ k :: below ∧ num k ≤ num a := by
    intro a ha
    rw [hmem] at ha
    have hin : a ∈ above ++ k :: below := mem_stack_of_mem_above ha
    exact ⟨hin, (h.mem_above_iff hin).mp ha⟩
  obtain ⟨-, hlater, hcross⟩ := List.pairwise_append.mp hsorted
  obtain ⟨hb, hkb⟩ := hstack (a := b) (by simp)
  -- `b` is not the first node, as that would come before itself
  have hlt : num k < num b := by
    obtain ⟨first, hfirst⟩ := List.exists_mem_of_ne_nil _ hne
    obtain ⟨hin, hle⟩ := hstack (List.mem_append_left _ hfirst)
    refine lt_of_le_of_ne (hle.trans (hcross first hfirst b List.mem_cons_self)) fun heq => ?_
    have hfb : first = b :=
      h.eq_of_num_eq hin hb (le_antisymm (hcross first hfirst b List.mem_cons_self) (heq ▸ hle))
    exact (List.nodup_append.mp hnodup).2.2 first hfirst b List.mem_cons_self hfb
  obtain ⟨a, ha, hka, hab, hedge⟩ := h.spreads k List.mem_cons_self b hb hlt
  refine ⟨a, ?_, hedge⟩
  have hin : a ∈ earlier ++ b :: later := (hmem a).mpr ((h.mem_above_iff ha).mpr hka)
  rcases List.mem_append.mp hin with hin | hin
  · exact hin
  rcases List.mem_cons.mp hin with rfl | hin
  · exact absurd hab (lt_irrefl _)
  · exact absurd hab (Nat.not_lt.mpr ((List.pairwise_cons.mp hlater).1 a hin))

end Component

end LowLinks

end FrancaLint.Graph
