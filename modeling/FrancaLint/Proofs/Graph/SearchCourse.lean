import FrancaLint.Proofs.Graph.CycleSearch
import Mathlib.Data.Finset.Card

/-! # The course of a search for a cycle

A depth-first search for a cycle comes to an end: each node that it enters has a key that it has not
met. Where no two nodes have the same key, a search that finds no cycle has met only nodes that do
not lead back to themselves.

* `Searched`, the course of a search, step by step; `Searched.unique`, there is only one.
* `searched_searchCycle`: a search with enough depth takes this course.
* `Settled`, the invariant of a search that has found nothing so far: what has been left behind
  leads to nothing on the path and not back to itself.
* `Searched.not_transGen` and `IsRing.exists_transGen`: what it means that there is no cycle. -/

namespace FrancaLint.Graph

open Relation

variable {α κ : Type} {key : α → κ} {next : α → List α} {start : α}

/-! ## Nodes and their keys -/

/-- The start leads to the node. -/
def ReachedBy (next : α → List α) (start node : α) : Prop :=
  ReflTransGen (fun x y => y ∈ next x) start node

/-- What a node leads to is what its key leads to. -/
theorem transGen_keyEdge {node other : α} (hnode : ReachedBy next start node)
    (h : TransGen (fun x y => y ∈ next x) node other) :
    TransGen (KeyEdge key next start) (key node) (key other) := by
  induction h with
  | single hedge => exact .single ⟨_, _, hnode, hedge, rfl, rfl⟩
  | tail hleads hedge ih =>
    exact ih.tail ⟨_, _, ReflTransGen.trans hnode hleads.to_reflTransGen, hedge, rfl, rfl⟩

section Distinct

variable (hdistinct : ∀ x y, ReachedBy next start x → ReachedBy next start y → key x = key y →
  x = y)
include hdistinct

/-- The edges of the key of a node are those of the node. -/
theorem exists_target_of_keyEdge {node : α} (hnode : ReachedBy next start node) {k : κ}
    (h : KeyEdge key next start (key node) k) : ∃ target ∈ next node, key target = k := by
  obtain ⟨other, target, hother, htarget, heq, rfl⟩ := h
  obtain rfl := hdistinct other node hother hnode heq
  exact ⟨target, htarget, rfl⟩

/-- What the key of a node leads to is the key of a node that it leads to. -/
theorem exists_transGen_of_keyEdge {node : α} (hnode : ReachedBy next start node) {k : κ}
    (h : TransGen (KeyEdge key next start) (key node) k) :
    ∃ other, TransGen (fun x y => y ∈ next x) node other ∧ key other = k := by
  induction h with
  | single hedge =>
    obtain ⟨target, htarget, rfl⟩ := exists_target_of_keyEdge hdistinct hnode hedge
    exact ⟨target, .single htarget, rfl⟩
  | tail _ hedge ih =>
    obtain ⟨middle, hleads, rfl⟩ := ih
    have hmiddle : ReachedBy next start middle := ReflTransGen.trans hnode hleads.to_reflTransGen
    obtain ⟨target, htarget, rfl⟩ := exists_target_of_keyEdge hdistinct hmiddle hedge
    exact ⟨target, hleads.tail htarget, rfl⟩

/-- On a ring there is a node that leads back to itself. -/
theorem IsRing.exists_transGen {ring : List κ} (h : IsRing (KeyEdge key next start) ring) :
    ∃ node, ReachedBy next start node ∧ TransGen (fun x y => y ∈ next x) node node := by
  obtain ⟨first, hback⟩ := h.transGen
  obtain ⟨_, ⟨node, -, hnode, -, rfl, -⟩, -⟩ := TransGen.head'_iff.mp hback
  obtain ⟨other, hleads, heq⟩ := exists_transGen_of_keyEdge hdistinct hnode hback
  have hother : ReachedBy next start other := ReflTransGen.trans hnode hleads.to_reflTransGen
  obtain rfl := hdistinct other node hother hnode heq
  exact ⟨other, hnode, hleads⟩

end Distinct

/-! ## Settled keys -/

/-- A search that has found nothing so far has **settled** the keys that it has left behind: they
lead to nothing on the path and not back to themselves. -/
def Settled (key : α → κ) (next : α → List α) (start : α) (path met : List κ) : Prop :=
  ∀ k ∈ met, k ∉ path → ¬ TransGen (KeyEdge key next start) k k ∧
    ∀ k', KeyEdge key next start k k' → k' ∈ met ∧ k' ∉ path

/-- A settled key leads to settled keys only. -/
theorem Settled.of_transGen {path met : List κ} (h : Settled key next start path met) {k k' : κ}
    (hmet : k ∈ met) (hpath : k ∉ path) (hleads : TransGen (KeyEdge key next start) k k') :
    k' ∈ met ∧ k' ∉ path := by
  induction hleads with
  | single hedge => exact (h k hmet hpath).2 _ hedge
  | tail _ hedge ih => exact (h _ ih.1 ih.2).2 _ hedge

/-- What has been settled stays settled when a new key is put on the path. -/
theorem Settled.enter {path met : List κ} (h : Settled key next start path met) {k : κ}
    (hnew : k ∉ met) : Settled key next start (path ++ [k]) (k :: met) := by
  intro other hother hpath
  rw [List.mem_append, List.mem_singleton, not_or] at hpath
  obtain ⟨hacyclic, hedges⟩ := h other ((List.mem_cons.mp hother).resolve_left hpath.2) hpath.1
  refine ⟨hacyclic, fun k' hedge => ?_⟩
  obtain ⟨hmet, hpath'⟩ := hedges k' hedge
  refine ⟨List.mem_cons_of_mem _ hmet, ?_⟩
  rw [List.mem_append, List.mem_singleton, not_or]
  exact ⟨hpath', fun heq => hnew (heq ▸ hmet)⟩

/-- The last key of the path is settled with the others when it is left behind, if it leads to
settled keys only. -/
theorem Settled.leave {path met : List κ} {k : κ}
    (h : Settled key next start (path ++ [k]) met)
    (hedges : ∀ k', KeyEdge key next start k k' → k' ∈ met ∧ k' ∉ path ++ [k]) :
    Settled key next start path met := by
  have hoff : ∀ {k'}, k' ∉ path ++ [k] → k' ∉ path :=
    fun hpath hmem => hpath (List.mem_append_left _ hmem)
  intro other hother hpath
  by_cases heq : other = k
  · subst heq
    refine ⟨fun hback => ?_, fun k' hedge => ?_⟩
    · -- the way back would end on the path
      obtain ⟨k', hedge, hleads⟩ := TransGen.head'_iff.mp hback
      obtain ⟨hmet, hpath'⟩ := hedges k' hedge
      rcases reflTransGen_iff_eq_or_transGen.mp hleads with heq | hleads
      · exact hpath' (by simp [heq])
      · exact (h.of_transGen hmet hpath' hleads).2 (by simp)
    · exact ⟨(hedges k' hedge).1, hoff (hedges k' hedge).2⟩
  · obtain ⟨hacyclic, hedges'⟩ := h other hother (by simp [hpath, heq])
    exact ⟨hacyclic, fun k' hedge => ⟨(hedges' k' hedge).1, hoff (hedges' k' hedge).2⟩⟩

variable [DecidableEq κ]

/-! ## Courses -/

/-- The **course** of a search through some nodes: `path` leads to them and `met` holds the keys met
so far. The outcome is the ring that has been found, or else the keys that have been met. -/
inductive Searched (key : α → κ) (next : α → List α) :
    List κ → List κ → List α → Except (List κ) (List κ) → Prop where
  /-- No node is left. -/
  | done {path met : List κ} : Searched key next path met [] (.ok met)
  /-- The first node is on the path. -/
  | ring {path met : List κ} {target : α} {rest : List α} (onPath : key target ∈ path) :
      Searched key next path met (target :: rest)
        (.error (path.dropWhile (· ≠ key target) ++ [key target]))
  /-- The first node has been left behind. -/
  | skip {path met : List κ} {target : α} {rest : List α} {outcome : Except (List κ) (List κ)}
      (offPath : key target ∉ path) (known : key target ∈ met)
      (later : Searched key next path met rest outcome) :
      Searched key next path met (target :: rest) outcome
  /-- There is a ring below the first node. -/
  | stop {path met ring : List κ} {target : α} {rest : List α} (offPath : key target ∉ path)
      (new : key target ∉ met)
      (below : Searched key next (path ++ [key target]) (key target :: met) (next target)
        (.error ring)) :
      Searched key next path met (target :: rest) (.error ring)
  /-- There is no ring below the first node. -/
  | go {path met after : List κ} {target : α} {rest : List α} {outcome : Except (List κ) (List κ)}
      (offPath : key target ∉ path) (new : key target ∉ met)
      (below : Searched key next (path ++ [key target]) (key target :: met) (next target)
        (.ok after))
      (later : Searched key next path after rest outcome) :
      Searched key next path met (target :: rest) outcome

/-- A search takes one course only. -/
theorem Searched.unique {path met : List κ} {targets : List α}
    {outcome outcome' : Except (List κ) (List κ)} (h : Searched key next path met targets outcome)
    (h' : Searched key next path met targets outcome') : outcome = outcome' := by
  induction h generalizing outcome' with
  | done =>
    cases h'
    rfl
  | ring onPath =>
    cases h' with
    | ring => rfl
    | skip offPath => exact absurd onPath offPath
    | stop offPath => exact absurd onPath offPath
    | go offPath => exact absurd onPath offPath
  | skip offPath known _ ih =>
    cases h' with
    | ring onPath => exact absurd onPath offPath
    | skip _ _ later => exact ih later
    | stop _ new => exact absurd known new
    | go _ new => exact absurd known new
  | stop offPath new _ ih =>
    cases h' with
    | ring onPath => exact absurd onPath offPath
    | skip _ known => exact absurd known new
    | stop _ _ below => exact ih below
    | go _ _ below => cases ih below
  | go offPath new _ _ ihBelow ihLater =>
    cases h' with
    | ring onPath => exact absurd onPath offPath
    | skip _ known => exact absurd known new
    | stop _ _ below => cases ihBelow below
    | go _ _ below later =>
      cases ihBelow below
      exact ihLater later

/-- What has been met stays met. -/
theorem Searched.subset {path met after : List κ} {targets : List α}
    (h : Searched key next path met targets (.ok after)) : met ⊆ after := by
  generalize hout : (Except.ok after : Except (List κ) (List κ)) = outcome at h
  induction h generalizing after with
  | done =>
    cases hout
    exact List.Subset.refl _
  | ring => cases hout
  | skip _ _ _ ih => exact ih hout
  | stop => cases hout
  | go _ _ _ _ ihBelow ihLater =>
    exact List.Subset.trans (List.subset_of_cons_subset (ihBelow rfl)) (ihLater hout)

/-! ## Searches with enough depth -/

section Depth

variable {visible : α → Prop} {keys : Finset κ}
  (hnext : ∀ node, visible node → ∀ target ∈ next node, visible target)
  (hkeys : ∀ node, visible node → key node ∈ keys)
include hnext hkeys

/-- A search that may go as deep as there are keys left takes its course to the end. -/
theorem searched_searchCycle {depth : Nat} {path met : List κ} {node : α} (hvisible : visible node)
    (hnew : key node ∉ met) (hdepth : (keys \ met.toFinset).card ≤ depth) :
    Searched key next (path ++ [key node]) (key node :: met) (next node)
      (searchCycle key next depth path met node) := by
  induction depth generalizing path met node with
  | zero =>
    -- the key of the node is left
    have hmem : key node ∈ keys \ met.toFinset := by simp [hkeys node hvisible, hnew]
    rw [Nat.le_zero, Finset.card_eq_zero] at hdepth
    exact absurd (hdepth ▸ hmem) (Finset.notMem_empty _)
  | succ depth ih =>
    have hroom : (keys \ (key node :: met).toFinset).card ≤ depth := by
      have hmem : key node ∈ keys \ met.toFinset := by simp [hkeys node hvisible, hnew]
      rw [List.toFinset_cons, Finset.sdiff_insert]
      have := Finset.card_erase_lt_of_mem hmem
      omega
    have htargets := hnext node hvisible
    unfold searchCycle
    -- on the successors: each one is entered with all keys met before it
    generalize key node :: met = before at hroom ⊢
    generalize next node = targets at htargets ⊢
    induction targets generalizing before with
    | nil => exact .done
    | cons target rest ihRest =>
      obtain ⟨htarget, hrest⟩ := List.forall_mem_cons.mp htargets
      rw [List.foldlM_cons]
      by_cases honPath : key target ∈ path ++ [key node]
      · rw [if_pos honPath]
        exact .ring honPath
      · rw [if_neg honPath]
        by_cases hknown : key target ∈ before
        · rw [if_pos hknown]
          exact .skip honPath hknown (ihRest before hroom hrest)
        · rw [if_neg hknown]
          have hbelow := @ih (path ++ [key node]) before target htarget hknown hroom
          cases hresult : searchCycle key next depth (path ++ [key node]) before target with
          | error ring =>
            rw [hresult] at hbelow
            exact .stop honPath hknown hbelow
          | ok after =>
            rw [hresult] at hbelow
            have hsubset : before.toFinset ⊆ after.toFinset := by
              intro k hk
              rw [List.mem_toFinset] at hk ⊢
              exact hbelow.subset (List.mem_cons_of_mem _ hk)
            have hless := Finset.card_le_card (Finset.sdiff_subset_sdiff (le_refl keys) hsubset)
            exact .go honPath hknown hbelow (ihRest after (hless.trans hroom) hrest)

/-- A search from a node that may go as deep as there are keys takes its course to the end, and
answers with the ring that it finds. -/
theorem exists_searched_findCycle? {depth : Nat} {start : α} (hvisible : visible start)
    (hdepth : keys.card ≤ depth) :
    ∃ outcome, Searched key next [key start] [key start] (next start) outcome ∧
      ∀ ring, findCycle? key next depth start = some ring ↔ outcome = .error ring := by
  have hcourse : Searched key next ([] ++ [key start]) [key start] (next start)
      (searchCycle key next depth [] [] start) :=
    searched_searchCycle hnext hkeys hvisible List.not_mem_nil (by simpa using hdepth)
  refine ⟨_, hcourse, fun ring => ?_⟩
  unfold findCycle?
  cases searchCycle key next depth [] [] start <;> simp

end Depth

/-! ## Searches that find nothing -/

section Distinct

variable (hdistinct : ∀ x y, ReachedBy next start x → ReachedBy next start y → key x = key y →
  x = y)
include hdistinct

/-- A search that finds nothing settles what it leaves behind. -/
theorem Searched.settled {path met after : List κ} {targets : List α}
    (h : Searched key next path met targets (.ok after))
    (htargets : ∀ target ∈ targets, ReachedBy next start target)
    (hsettled : Settled key next start path met) :
    Settled key next start path after ∧ ∀ target ∈ targets, key target ∈ after ∧
      key target ∉ path := by
  generalize hout : (Except.ok after : Except (List κ) (List κ)) = outcome at h
  induction h generalizing after with
  | done =>
    cases hout
    exact ⟨hsettled, by simp⟩
  | ring => cases hout
  | stop => cases hout
  | @skip path met target rest _ offPath known later ih =>
    subst hout
    obtain ⟨_, hrest⟩ := List.forall_mem_cons.mp htargets
    obtain ⟨hafter, hmet⟩ := ih hrest hsettled rfl
    exact ⟨hafter, List.forall_mem_cons.mpr ⟨⟨later.subset known, offPath⟩, hmet⟩⟩
  | @go path met middle target rest _ offPath new below later ihBelow ihLater =>
    subst hout
    obtain ⟨htarget, hrest⟩ := List.forall_mem_cons.mp htargets
    -- the target is on the path while its successors are searched, and is settled behind them
    have hsuccessors : ∀ other ∈ next target, ReachedBy next start other :=
      fun other hother => ReflTransGen.tail htarget hother
    obtain ⟨hbelow, hmet⟩ := ihBelow hsuccessors (hsettled.enter new) rfl
    have hleft : Settled key next start path middle := by
      refine hbelow.leave fun k' hedge => ?_
      obtain ⟨other, hother, rfl⟩ := exists_target_of_keyEdge hdistinct htarget hedge
      exact hmet other hother
    obtain ⟨hafter, hmetRest⟩ := ihLater hrest hleft rfl
    have hkept : key target ∈ after := later.subset (below.subset List.mem_cons_self)
    exact ⟨hafter, List.forall_mem_cons.mpr ⟨⟨hkept, offPath⟩, hmetRest⟩⟩

/-- **A search that finds nothing misses nothing**: where no two nodes have the same key, nothing
that the start leads to leads back to itself. -/
theorem Searched.not_transGen {after : List κ}
    (h : Searched key next [key start] [key start] (next start) (.ok after)) {node : α}
    (hnode : ReachedBy next start node) : ¬ TransGen (fun x y => y ∈ next x) node node := by
  intro hback
  have htargets : ∀ target ∈ next start, ReachedBy next start target :=
    fun target htarget => .single htarget
  have hnothing : Settled key next start [key start] [key start] :=
    fun k hk hpath => absurd hk hpath
  obtain ⟨hsettled, hmet⟩ := h.settled hdistinct htargets hnothing
  -- the first step from the start leads to settled keys, and these do not lead back
  have hall : ∀ {other}, TransGen (fun x y => y ∈ next x) start other →
      key other ∈ after ∧ key other ∉ [key start] := by
    intro other hleads
    induction hleads with
    | single hedge => exact hmet _ hedge
    | @tail middle last hleads hedge ih =>
      exact (hsettled _ ih.1 ih.2).2 _
        ⟨middle, last, hleads.to_reflTransGen, hedge, rfl, rfl⟩
  rcases reflTransGen_iff_eq_or_transGen.mp hnode with heq | hleads
  · subst heq
    exact (hall hback).2 (by simp)
  · obtain ⟨hmem, hpath⟩ := hall hleads
    exact (hsettled _ hmem hpath).1 (transGen_keyEdge hnode hback)

end Distinct

end FrancaLint.Graph
