import FrancaLint.Loader

/-! # Actions that keep an invariant

A loader may have a state of its own, such as what it has read before. What is done with it is
followed step by step: each action starts in a state with some invariant and leaves the invariant in
force.

* `Keeps`, an action that keeps an invariant, with a property of its value; `Yields`, the same with
  one value only.
* Rules for sequences, folds and lists of actions. -/

namespace FrancaLint

variable {σ α β : Type} {inv : σ → Prop}

/-- An action **keeps** an invariant of its state, and its value has a property. -/
def Keeps (inv : σ → Prop) (action : StateM σ α) (holds : α → Prop) : Prop :=
  ∀ state, inv state → holds (action.run state).1 ∧ inv (action.run state).2

/-- An action **yields** a value wherever an invariant holds, and keeps the invariant. -/
def Yields (inv : σ → Prop) (action : StateM σ α) (value : α) : Prop :=
  Keeps inv action (· = value)

namespace Keeps

variable {holds : α → Prop}

/-- Doing nothing keeps everything. -/
theorem pure {value : α} (h : holds value) : Keeps inv (pure value) holds :=
  fun _ hstate => ⟨h, hstate⟩

/-- Where no invariant is asked for, none is broken. -/
theorem any (action : StateM σ α) : Keeps (fun _ => True) action fun _ => True :=
  fun _ _ => ⟨trivial, trivial⟩

/-- The value of an action has its property in every state if no invariant is asked for. -/
theorem value {action : StateM σ α} (h : Keeps (fun _ => True) action holds) (state : σ) :
    holds (action.run state).run.1 :=
  (h state trivial).1

/-- Looking at the state shows the invariant. -/
theorem get : Keeps inv MonadState.get inv :=
  fun _ hstate => ⟨hstate, hstate⟩

/-- One action after another keeps what both of them keep. -/
theorem bind {action : StateM σ α} {next : α → StateM σ β} {holds' : β → Prop}
    (h : Keeps inv action holds) (hnext : ∀ value, holds value → Keeps inv (next value) holds') :
    Keeps inv (action >>= next) holds' := by
  intro state hstate
  obtain ⟨hvalue, hafter⟩ := h state hstate
  exact hnext _ hvalue _ hafter

/-- Going through a list keeps what every step keeps. -/
theorem foldlM {step : β → α → StateM σ β} {list : List α} {holds : β → Prop}
    (h : ∀ item ∈ list, ∀ value, holds value → Keeps inv (step value item) holds) {start : β}
    (hstart : holds start) : Keeps inv (list.foldlM step start) holds := by
  induction list generalizing start with
  | nil => exact pure hstart
  | cons item rest ih =>
    rw [List.foldlM_cons]
    obtain ⟨hitem, hrest⟩ := List.forall_mem_cons.mp h
    exact (hitem start hstart).bind fun value hvalue => ih hrest hvalue

end Keeps

namespace Yields

/-- Doing nothing yields the value that is given. -/
theorem pure (value : α) : Yields inv (pure value) value :=
  Keeps.pure rfl

/-- An action without a state yields its value. -/
theorem lift (action : Id α) : Yields inv (StateT.lift action) action.run :=
  fun _ hstate => ⟨rfl, hstate⟩

/-- A change of the state that keeps the invariant yields nothing. -/
theorem modify {change : σ → σ} (h : ∀ state, inv state → inv (change state)) :
    Yields inv (modify change) () :=
  fun state hstate => ⟨rfl, h state hstate⟩

/-- One action after another yields what the second one does from the value of the first. -/
theorem bind {action : StateM σ α} {value : α} {next : α → StateM σ β} {result : β}
    (h : Yields inv action value) (hnext : Yields inv (next value) result) :
    Yields inv (action >>= next) result := by
  refine Keeps.bind h ?_
  rintro _ rfl
  exact hnext

/-- Going through a list yields what going through it without a state does. -/
theorem foldlM {step : β → α → StateM σ β} {step' : β → α → Id β}
    (h : ∀ value item, Yields inv (step value item) (step' value item).run) (list : List α)
    (start : β) : Yields inv (list.foldlM step start) (list.foldlM step' start).run := by
  induction list generalizing start with
  | nil => exact .pure start
  | cons item rest ih =>
    rw [List.foldlM_cons, List.foldlM_cons, Id.run_bind]
    exact (h start item).bind (ih _)

/-- An action for each member of a list yields nothing if each of them does. -/
theorem forM {action : α → StateM σ PUnit} (h : ∀ item, Yields inv (action item) ⟨⟩)
    (list : List α) : Yields inv (list.forM action) ⟨⟩ := by
  induction list with
  | nil => exact .pure _
  | cons item rest ih => exact (h item).bind ih

/-- An action for each member of a list yields the list of what the actions yield. -/
theorem mapM {action : α → StateM σ β} {value : α → β}
    (h : ∀ item, Yields inv (action item) (value item)) (list : List α) :
    Yields inv (list.mapM action) (list.map value) := by
  induction list with
  | nil => exact .pure []
  | cons item rest ih =>
    rw [List.mapM_cons]
    exact (h item).bind (ih.bind (.pure _))

end Yields

end FrancaLint
