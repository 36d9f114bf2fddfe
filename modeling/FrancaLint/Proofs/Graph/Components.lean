import Mathlib.Data.List.Nodup
import Mathlib.Logic.Relation

/-! # Strongly connected components

Nodes that lead to each other form a component, which is cyclic if it has several nodes or one with
an edge to itself.

* `Mutual`, nodes that lead to each other, and `OnCycle`, nodes of a cyclic component.
* `IsComponent`, a list of the nodes of a component, and `SpreadsFromFirst`, nodes in the order in
  which a walk spreads over them.
* `CyclicComponents`, the cyclic components among some nodes, in an order in which none leads to a
  later one; `CyclicComponents.disjoint`: they have no node in common. -/

namespace FrancaLint.Graph

open Relation

variable {κ : Type} {edge edge' : κ → κ → Prop} {a b c : κ} {component : List κ}

/-! ## Nodes that lead to each other -/

/-- Two nodes lead to each other. -/
def Mutual (edge : κ → κ → Prop) (a b : κ) : Prop :=
  ReflTransGen edge a b ∧ ReflTransGen edge b a

/-- The node is on a cycle: it shares its component with another node or has an edge to itself. -/
def OnCycle (edge : κ → κ → Prop) (a : κ) : Prop :=
  (∃ b, b ≠ a ∧ Mutual edge a b) ∨ edge a a

/-- Every node shares its component with itself. -/
theorem Mutual.refl (edge : κ → κ → Prop) (a : κ) : Mutual edge a a :=
  ⟨.refl, .refl⟩

/-- Nodes share their component both ways. -/
theorem Mutual.symm (h : Mutual edge a b) : Mutual edge b a :=
  ⟨h.2, h.1⟩

/-- Nodes that share their component with a third one share it with each other. -/
theorem Mutual.trans (hab : Mutual edge a b) (hbc : Mutual edge b c) : Mutual edge a c :=
  ⟨hab.1.trans hbc.1, hbc.2.trans hab.2⟩

/-- A node on a cycle leads by some edges to whatever it leads to, also to itself. -/
theorem OnCycle.transGen (h : OnCycle edge a) (hab : ReflTransGen edge a b) :
    TransGen edge a b := by
  have hback : TransGen edge a a := by
    rcases h with ⟨c, hne, hac, hca⟩ | hedge
    · exact ((reflTransGen_iff_eq_or_transGen.mp hac).resolve_left hne).trans_left hca
    · exact .single hedge
  exact hback.trans_left hab

/-! ## Lists of the nodes of a component -/

/-- The list holds the nodes of the component of a node, each of them once. -/
def IsComponent (edge : κ → κ → Prop) (component : List κ) : Prop :=
  component.Nodup ∧ ∃ a ∈ component, ∀ b, b ∈ component ↔ Mutual edge a b

/-- A component belongs to each of its nodes. -/
theorem IsComponent.mem_iff (h : IsComponent edge component) (ha : a ∈ component) :
    b ∈ component ↔ Mutual edge a b := by
  obtain ⟨-, c, -, hmem⟩ := h
  rw [hmem] at ha
  rw [hmem]
  exact ⟨fun hb => ha.symm.trans hb, fun hb => ha.trans hb⟩

/-- A node is on a cycle if its component has another node or it has an edge to itself. -/
theorem IsComponent.onCycle_iff (h : IsComponent edge component) (ha : a ∈ component) :
    OnCycle edge a ↔ 1 < component.length ∨ edge a a := by
  refine or_congr_left ?_
  have hmutual : (∃ b, b ≠ a ∧ Mutual edge a b) ↔ ∃ b ∈ component, b ≠ a :=
    ⟨fun ⟨b, hne, hab⟩ => ⟨b, (h.mem_iff ha).mpr hab, hne⟩,
      fun ⟨b, hb, hne⟩ => ⟨b, hne, (h.mem_iff ha).mp hb⟩⟩
  rw [hmutual]
  match component, h.1 with
  | [], _ => simp
  | [c], _ =>
    obtain rfl := List.mem_singleton.mp ha
    simp
  | c :: d :: rest, hnodup =>
    have hcd : c ≠ d := fun heq => by simp [heq] at hnodup
    refine ⟨fun _ => by simp, fun _ => ?_⟩
    by_cases hac : a = c
    · exact ⟨d, by simp, fun heq => hcd (hac.symm.trans heq.symm)⟩
    · exact ⟨c, by simp, fun heq => hac heq.symm⟩

/-- A node on a cycle has an edge from a node of its component. -/
theorem IsComponent.exists_edge_into (h : IsComponent edge component) (ha : a ∈ component)
    (hon : OnCycle edge a) : ∃ b ∈ component, edge b a := by
  obtain ⟨b, hab, hba⟩ := TransGen.tail'_iff.mp (hon.transGen .refl)
  exact ⟨b, (h.mem_iff ha).mpr ⟨hab, .single hba⟩, hba⟩

/-- The nodes **spread from the first** one: every other node has an edge from an earlier one. -/
def SpreadsFromFirst (edge : κ → κ → Prop) (nodes : List κ) : Prop :=
  ∀ earlier b later, nodes = earlier ++ b :: later → earlier ≠ [] → ∃ a ∈ earlier, edge a b

/-! ## Cyclic components -/

/-- The cyclic components among some nodes. None leads to a later one, and each spreads from its
first node. -/
structure CyclicComponents (edge : κ → κ → Prop) (among : κ → Prop) (found : List (List κ)) :
    Prop where
  /-- Every list is a component. -/
  isComponent : ∀ component ∈ found, IsComponent edge component
  /-- Its nodes are on a cycle. -/
  onCycle : ∀ component ∈ found, ∀ a ∈ component, among a ∧ OnCycle edge a
  /-- It is listed in an order in which it spreads. -/
  spreads : ∀ component ∈ found, SpreadsFromFirst edge component
  /-- Every node on a cycle is in one of them. -/
  covers : ∀ a, among a → OnCycle edge a → ∃ component ∈ found, a ∈ component
  /-- No component leads to a later one. -/
  pairwise : found.Pairwise fun earlier later =>
    ∀ a ∈ earlier, ∀ b ∈ later, ¬ ReflTransGen edge a b

namespace CyclicComponents

variable {among among' : κ → Prop} {found : List (List κ)} (h : CyclicComponents edge among found)
include h

/-- No two cyclic components share a node. -/
theorem disjoint : found.Pairwise List.Disjoint :=
  h.pairwise.imp fun hpair a ha ha' => hpair a ha a ha' .refl

/-- Nodes that are on no cycle add nothing. -/
theorem of_not_onCycle (hsub : ∀ a, among a → among' a)
    (hnew : ∀ a, among' a → among a ∨ ¬ OnCycle edge a) : CyclicComponents edge among' found where
  isComponent := h.isComponent
  onCycle component hmem a ha :=
    ⟨hsub a (h.onCycle component hmem a ha).1, (h.onCycle component hmem a ha).2⟩
  spreads := h.spreads
  covers a ha hon := h.covers a ((hnew a ha).resolve_right fun hoff => hoff hon) hon
  pairwise := h.pairwise

/-- A cyclic component of new nodes comes last, if the old ones lead to none of them. -/
theorem concat (hclosed : ∀ a b, among a → edge a b → among b) (hsub : ∀ a, among a → among' a)
    (hnew : ∀ a, among' a → among a ∨ a ∈ component) (hin : ∀ a ∈ component, among' a)
    (hfresh : ∀ a ∈ component, ¬ among a) (hcomponent : IsComponent edge component)
    (hspreads : SpreadsFromFirst edge component) (hon : ∀ a ∈ component, OnCycle edge a) :
    CyclicComponents edge among' (found ++ [component]) := by
  have hleads : ∀ {a b}, among a → ReflTransGen edge a b → among b := by
    intro a b ha hpath
    induction hpath with
    | refl => exact ha
    | tail _ hedge ih => exact hclosed _ _ ih hedge
  constructor
  case isComponent =>
    simpa [or_imp, forall_and] using ⟨h.isComponent, hcomponent⟩
  case onCycle =>
    intro other hmem a ha
    rcases List.mem_append.mp hmem with hmem | hmem
    · exact ⟨hsub a (h.onCycle other hmem a ha).1, (h.onCycle other hmem a ha).2⟩
    · obtain rfl := List.mem_singleton.mp hmem
      exact ⟨hin a ha, hon a ha⟩
  case spreads =>
    simpa [or_imp, forall_and] using ⟨h.spreads, hspreads⟩
  case covers =>
    intro a ha hcycle
    rcases hnew a ha with ha | ha
    · obtain ⟨other, hmem, hin⟩ := h.covers a ha hcycle
      exact ⟨other, List.mem_append_left _ hmem, hin⟩
    · exact ⟨component, by simp, ha⟩
  case pairwise =>
    refine List.pairwise_append.mpr ⟨h.pairwise, List.pairwise_singleton _ _, ?_⟩
    intro earlier hearlier later hlater a ha b hb hpath
    obtain rfl := List.mem_singleton.mp hlater
    exact hfresh b hb (hleads (h.onCycle earlier hearlier a ha).1 hpath)

end CyclicComponents

/-! ## Graphs that grow -/

/-- One graph **grows** to another one outside some nodes, which it does not leave: the new graph
has the old edges and the nodes in question have no others. -/
structure GrowsOutside (closed : κ → Prop) (edge edge' : κ → κ → Prop) : Prop where
  /-- Edges are kept. -/
  mono : ∀ a b, edge a b → edge' a b
  /-- An edge from a node in question is an old one and leads to such a node. -/
  closed : ∀ a b, closed a → edge' a b → edge a b ∧ closed b

namespace GrowsOutside

variable {closed : κ → Prop} (h : GrowsOutside closed edge edge')
include h

/-- What a node in question leads to does not change, and belongs to them. -/
theorem leads_iff (ha : closed a) :
    (ReflTransGen edge' a b ↔ ReflTransGen edge a b) ∧ (ReflTransGen edge a b → closed b) := by
  have hold : ReflTransGen edge' a b → ReflTransGen edge a b ∧ closed b := by
    intro hpath
    induction hpath with
    | refl => exact ⟨.refl, ha⟩
    | tail _ hedge ih =>
      obtain ⟨hold, hclosed⟩ := h.closed _ _ ih.2 hedge
      exact ⟨ih.1.tail hold, hclosed⟩
  have hmono : ReflTransGen edge a b → ReflTransGen edge' a b := ReflTransGen.mono h.mono _ _
  exact ⟨⟨fun hpath => (hold hpath).1, hmono⟩, fun hpath => (hold (hmono hpath)).2⟩

/-- The component of a node in question does not change. -/
theorem mutual_iff (ha : closed a) : Mutual edge' a b ↔ Mutual edge a b := by
  constructor
  · rintro ⟨hto, hback⟩
    have hto' := (h.leads_iff ha).1.mp hto
    exact ⟨hto', (h.leads_iff ((h.leads_iff ha).2 hto')).1.mp hback⟩
  · rintro ⟨hto, hback⟩
    exact ⟨(h.leads_iff ha).1.mpr hto, (h.leads_iff ((h.leads_iff ha).2 hto)).1.mpr hback⟩

/-- A node in question is on a cycle if it was. -/
theorem onCycle_iff (ha : closed a) : OnCycle edge' a ↔ OnCycle edge a := by
  have hloop : edge' a a ↔ edge a a := ⟨fun hedge => (h.closed a a ha hedge).1, h.mono a a⟩
  simp only [OnCycle, h.mutual_iff ha, hloop]

/-- The cyclic components among the nodes in question do not change. -/
theorem cyclicComponents {found : List (List κ)} (hfound : CyclicComponents edge closed found) :
    CyclicComponents edge' closed found := by
  have hclosed : ∀ component ∈ found, ∀ a ∈ component, closed a :=
    fun component hmem a ha => (hfound.onCycle component hmem a ha).1
  constructor
  case isComponent =>
    intro component hmem
    obtain ⟨hnodup, a, ha, hall⟩ := hfound.isComponent component hmem
    exact ⟨hnodup, a, ha, fun b => by rw [hall, h.mutual_iff (hclosed component hmem a ha)]⟩
  case onCycle =>
    intro component hmem a ha
    obtain ⟨hnode, hon⟩ := hfound.onCycle component hmem a ha
    exact ⟨hnode, (h.onCycle_iff hnode).mpr hon⟩
  case spreads =>
    intro component hmem earlier b later hsplit hne
    obtain ⟨a, ha, hedge⟩ := hfound.spreads component hmem earlier b later hsplit hne
    exact ⟨a, ha, h.mono a b hedge⟩
  case covers =>
    exact fun a ha hon => hfound.covers a ha ((h.onCycle_iff ha).mp hon)
  case pairwise =>
    refine hfound.pairwise.imp_of_mem ?_
    intro earlier later hearlier _ hpair a ha b hb hpath
    exact hpair a ha b hb ((h.leads_iff (hclosed earlier hearlier a ha)).1.mp hpath)

end GrowsOutside

end FrancaLint.Graph
