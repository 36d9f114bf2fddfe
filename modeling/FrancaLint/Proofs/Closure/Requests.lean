import FrancaLint.Proofs.Closure.Walk

/-! # Requests of a walk

A walk asks its loader at most once for a file, whatever the loader answers: it may break off,
answer junk, or give another answer each time.

* `Loader.noted`, a loader that keeps a record of its requests; `notes_resolve`: a walk with it
  finds what it finds without the record.
* `Walk.Follows`, the invariant of a walk: what it has found is what its requests have been
  answered, and it asks only for targets of what it has found.
* `Walk.Follows.visitPending`: a walk visits as many files as its limit allows or comes to an end.
* `files_are_requested_once`, all of it for the closure of a root. -/

namespace FrancaLint

/-! ## Loaders with a record -/

/-- A **request** for a file, with the answer that came back. -/
abbrev Loader.Request :=
  String × LoaderAnswer

section Noted

variable {σ : Type} (loader : Loader (StateM σ))

namespace Loader

/-- The loader with a record of its requests, the first one first. -/
def noted : Loader (StateM (σ × List Loader.Request)) where
  ask path := do
    let (state, asked) ← get
    let (answer, after) := ((loader.ask path).run state).run
    set (after, asked ++ [(path, answer)])
    return answer
  notify notice := do
    let (state, asked) ← get
    set (((loader.notify notice).run state).run.2, asked)

/-- The loader **gives** an answer for a file in some state. -/
def Gives (path : String) (answer : LoaderAnswer) : Prop :=
  ∃ state, ((loader.ask path).run state).run.1 = answer

/-- Loading a file is one request, and its result is that of the answer. -/
theorem exists_run_load_noted (path : String) (state : σ) (asked : List Loader.Request) :
    ∃ answer after, loader.Gives path answer ∧
      ((loader.noted.load path).run (state, asked)).run =
        (answer.result path, (after, asked ++ [(path, answer)])) := by
  cases hanswer : ((loader.ask path).run state).run with
  | mk answer after =>
    have hgives : loader.Gives path answer := ⟨state, congrArg Prod.fst hanswer⟩
    have hask : ((loader.noted.ask path).run (state, asked)).run =
        (answer, (after, asked ++ [(path, answer)])) := by
      simp [noted, hanswer]
    unfold load
    simp only [StateT.run_bind, Id.run_bind, hask]
    -- the notice that a loader has broken off may change its state as well
    cases answer with
    | raised kind message => exact ⟨_, _, hgives, rfl⟩
    | _ => exact ⟨_, after, hgives, rfl⟩

end Loader

/-- One program **notes** what another does when, with a record in its state, it gives the same
value and leaves the same state. -/
def Notes {α : Type} (noted : StateM (σ × List Loader.Request) α) (plain : StateM σ α) : Prop :=
  ∀ state asked, (noted.run (state, asked)).run.1 = (plain.run state).run.1 ∧
    (noted.run (state, asked)).run.2.1 = (plain.run state).run.2

variable {α β : Type}

/-- Doing nothing notes doing nothing. -/
theorem Notes.pure (value : α) : Notes (σ := σ) (pure value) (pure value) :=
  fun _ _ => ⟨rfl, rfl⟩

/-- One action after another notes what they do one after the other. -/
theorem Notes.bind {noted : StateM (σ × List Loader.Request) α} {plain : StateM σ α}
    {next : α → StateM (σ × List Loader.Request) β} {next' : α → StateM σ β} (h : Notes noted plain)
    (hnext : ∀ value, Notes (next value) (next' value)) :
    Notes (noted >>= next) (plain >>= next') := by
  intro state asked
  obtain ⟨hvalue, hstate⟩ := h state asked
  simp only [StateT.run_bind, Id.run_bind, ← hvalue, ← hstate]
  exact hnext _ _ _

/-- Going through a list notes going through it. -/
theorem Notes.foldlM {step : β → α → StateM (σ × List Loader.Request) β}
    {step' : β → α → StateM σ β}
    (h : ∀ value item, Notes (step value item) (step' value item)) (list : List α) (start : β) :
    Notes (list.foldlM step start) (list.foldlM step' start) := by
  induction list generalizing start with
  | nil => exact .pure start
  | cons item rest ih =>
    rw [List.foldlM_cons, List.foldlM_cons]
    exact (h start item).bind ih

/-- Giving notice. -/
theorem notes_notify (notice : Notice) :
    Notes (loader.noted.notify notice) (loader.notify notice) :=
  fun _ _ => ⟨rfl, rfl⟩

/-- Loading a file. -/
theorem notes_load (path : String) : Notes (loader.noted.load path) (loader.load path) := by
  have hask : Notes (loader.noted.ask path) (loader.ask path) := fun _ _ => ⟨rfl, rfl⟩
  refine hask.bind fun answer => ?_
  cases answer with
  | raised kind message => exact (notes_notify loader _).bind fun _ => .pure _
  | _ => exact .bind (.pure _) fun _ => .pure _

namespace Closure

/-- Visiting an import. -/
theorem notes_visit (importer : String) (walk : Walk) (edge : String × Nat) :
    Notes (visit loader.noted importer walk edge) (visit loader importer walk edge) := by
  unfold visit
  dsimp only
  cases walk.found.failed.lookup edge.1 with
  | some reason => exact .pure _
  | none =>
    dsimp only
    split
    · exact .pure _
    · refine (notes_load loader edge.1).bind fun result => ?_
      cases result with
      | error failure => exact (notes_notify loader _).bind fun _ => .pure _
      | ok document => exact (notes_notify loader _).bind fun _ => .pure _

/-- Visiting pending files. -/
theorem notes_visitPending (limit : Nat) (walk : Walk) :
    Notes (visitPending loader.noted limit walk) (visitPending loader limit walk) := by
  induction limit generalizing walk with
  | zero => exact .pure walk
  | succ limit ih =>
    unfold visitPending
    cases walk.pending with
    | nil => exact .pure walk
    | cons entry rest => exact (Notes.foldlM (notes_visit loader entry.1) _ _).bind ih

/-- Resolving the closure of a root. -/
theorem notes_resolve (limit : Nat) (root : Document) (directory : Option String) :
    Notes (resolve loader.noted limit root directory) (resolve loader limit root directory) :=
  (notes_visitPending loader limit _).bind fun _ => .pure _

end Closure

end Noted

namespace Closure

/-! ## What a walk keeps -/

/-- The targets of the imports that a file of a closure declares. -/
def targetsIn (root : Document) (directory : Option String) (file : String × Document) :
    List String :=
  file.2.importTargets (fileDirectory root directory file.1)

/-- A walk **follows** its requests when it has found what they have been answered, and every import
that it has not followed yet is still to be visited: it belongs to a pending file or to `current`,
the targets that are left of the file being visited. `visited` counts the files taken from the
queue. -/
structure Walk.Follows {σ : Type} (loader : Loader (StateM σ)) (root : Document)
    (directory : Option String) (asked : List Loader.Request) (visited : Nat) (walk : Walk)
    (current : List String) : Prop where
  /-- No file is asked for twice. -/
  asked_nodup : (asked.map Prod.fst).Nodup
  /-- The root is not asked for. -/
  root_not_asked : Path.normalize root.sourcePath ∉ asked.map Prod.fst
  /-- Every answer is one that the loader gives. -/
  of_asked : ∀ path answer, (path, answer) ∈ asked → loader.Gives path answer
  /-- No file has two documents. -/
  documents_nodup : (walk.found.documents.map Prod.fst).Nodup
  /-- No file fails twice. -/
  failed_nodup : (walk.found.failed.map Prod.fst).Nodup
  /-- The documents are the root and those that have been answered. -/
  mem_documents : ∀ path document, (path, document) ∈ walk.found.documents ↔
    path = Path.normalize root.sourcePath ∧ document = root ∨
      ∃ answer, (path, answer) ∈ asked ∧ answer.result path = .ok document
  /-- The failures are those that have been answered. -/
  mem_failed : ∀ path reason, (path, reason) ∈ walk.found.failed ↔
    ∃ answer failure, (path, answer) ∈ asked ∧ answer.result path = .error failure ∧
      failure.reason = reason
  /-- The imports are those of the documents. -/
  imports_eq : walk.found.imports =
    walk.found.documents.map fun file => (file.1, targetsIn root directory file)
  /-- Only targets of documents are asked for. -/
  asked_named : ∀ path ∈ asked.map Prod.fst,
    ∃ file ∈ walk.found.documents, path ∈ targetsIn root directory file
  /-- Only targets of documents are still to be visited. -/
  pending_named : ∀ entry ∈ walk.pending, ∀ target ∈ entry.2,
    ∃ file ∈ walk.found.documents, target ∈ targetsIn root directory file
  /-- Only targets of documents are left of the file being visited. -/
  current_named : ∀ target ∈ current,
    ∃ file ∈ walk.found.documents, target ∈ targetsIn root directory file
  /-- A target of a document is the root, has been asked for, or is still to be visited. -/
  covers : ∀ file ∈ walk.found.documents, ∀ target ∈ targetsIn root directory file,
    target = Path.normalize root.sourcePath ∨ target ∈ asked.map Prod.fst ∨
      target ∈ current ∨ ∃ entry ∈ walk.pending, target ∈ entry.2
  /-- Every document has been taken from the queue or is in it. -/
  length_eq : walk.found.documents.length = visited + walk.pending.length

namespace Walk.Follows

variable {σ : Type} {loader : Loader (StateM σ)} {root : Document} {directory : Option String}
variable {asked : List Loader.Request} {visited : Nat} {walk : Walk} {current : List String}

/-- The known files are the root and those that have been asked for. -/
theorem knows_iff (h : walk.Follows loader root directory asked visited current) {path : String} :
    walk.Knows path ↔ path = Path.normalize root.sourcePath ∨ path ∈ asked.map Prod.fst := by
  constructor
  · rintro (hmem | hmem)
    · obtain ⟨⟨_, document⟩, hentry, rfl⟩ := List.mem_map.mp hmem
      rcases (h.mem_documents _ document).mp hentry with ⟨hroot, -⟩ | ⟨answer, hanswer, -⟩
      · exact Or.inl hroot
      · exact Or.inr (List.mem_map.mpr ⟨_, hanswer, rfl⟩)
    · obtain ⟨⟨_, reason⟩, hentry, rfl⟩ := List.mem_map.mp hmem
      obtain ⟨answer, -, hanswer, -⟩ := (h.mem_failed _ reason).mp hentry
      exact Or.inr (List.mem_map.mpr ⟨_, hanswer, rfl⟩)
  · rintro (rfl | hmem)
    · exact Or.inl (List.mem_map.mpr ⟨_, (h.mem_documents _ root).mpr (Or.inl ⟨rfl, rfl⟩), rfl⟩)
    · obtain ⟨⟨path, answer⟩, hanswer, rfl⟩ := List.mem_map.mp hmem
      -- what has been asked for has been answered one way or the other
      cases hresult : answer.result path with
      | ok document =>
        exact Or.inl (List.mem_map.mpr
          ⟨_, (h.mem_documents path document).mpr (Or.inr ⟨answer, hanswer, hresult⟩), rfl⟩)
      | error failure =>
        exact Or.inr (List.mem_map.mpr ⟨_, (h.mem_failed path failure.reason).mpr
          ⟨answer, failure, hanswer, hresult, rfl⟩, rfl⟩)

/-- A file whose request has failed has no document. -/
theorem not_mem_documents {path : String} {answer : LoaderAnswer} {failure : LoadFailure}
    (h : walk.Follows loader root directory asked visited current) (hmem : (path, answer) ∈ asked)
    (herror : answer.result path = .error failure) : path ∉ walk.found.documents.map Prod.fst := by
  intro hkey
  obtain ⟨⟨_, document⟩, hentry, rfl⟩ := List.mem_map.mp hkey
  rcases (h.mem_documents _ document).mp hentry with ⟨hroot, -⟩ | ⟨other, hother, hok⟩
  · exact h.root_not_asked (List.mem_map.mpr ⟨_, hmem, hroot⟩)
  · -- one request has one answer
    have heq := List.inj_on_of_nodup_map h.asked_nodup hmem hother rfl
    rw [← (Prod.mk.inj heq).2, herror] at hok
    cases hok

/-- A target that is known needs no visit. -/
theorem skip {target : String}
    (h : walk.Follows loader root directory asked visited (target :: current))
    (hknown : walk.Knows target) : walk.Follows loader root directory asked visited current :=
  { h with
    current_named := fun t ht => h.current_named t (List.mem_cons_of_mem _ ht)
    covers := by
      intro file hfile t ht
      rcases h.covers file hfile t ht with hroot | hasked | hcurrent | hpending
      · exact Or.inl hroot
      · exact Or.inr (Or.inl hasked)
      · rcases List.mem_cons.mp hcurrent with rfl | hcurrent
        · exact (h.knows_iff.mp hknown).imp_right Or.inl
        · exact Or.inr (Or.inr (Or.inl hcurrent))
      · exact Or.inr (Or.inr (Or.inr hpending)) }

/-- Recording one more broken import changes nothing else. -/
theorem addFailure (h : walk.Follows loader root directory asked visited current)
    (edge : FailedImport) :
    Walk.Follows loader root directory asked visited
      { walk with found := walk.found.addFailure edge } current :=
  { h with }

/-- With one more request, an answer of some kind is one of those before or the new one. -/
theorem exists_mem_request {target path : String} {answer : LoaderAnswer}
    {kind : LoaderAnswer → Prop} :
    (∃ given, (path, given) ∈ asked ++ [(target, answer)] ∧ kind given) ↔
      (∃ given, (path, given) ∈ asked ∧ kind given) ∨ path = target ∧ kind answer := by
  simp only [List.mem_append, List.mem_singleton, Prod.mk.injEq, or_and_right, exists_or]
  refine or_congr_right ⟨?_, ?_⟩
  · rintro ⟨given, ⟨rfl, rfl⟩, hkind⟩
    exact ⟨rfl, hkind⟩
  · rintro ⟨rfl, hkind⟩
    exact ⟨answer, ⟨rfl, rfl⟩, hkind⟩

section Request

variable {target : String} {answer : LoaderAnswer}
  (h : walk.Follows loader root directory asked visited (target :: current))
  (hunknown : ¬ walk.Knows target) (hgives : loader.Gives target answer)
include h hunknown

/-- A target that is not known has not been asked for and is not the root. -/
theorem target_new : target ∉ asked.map Prod.fst ∧ target ≠ Path.normalize root.sourcePath := by
  rw [h.knows_iff, not_or] at hunknown
  exact hunknown.symm

/-- After a request for a new target every target is known or still to be visited. -/
theorem covers_request (file : String × Document) (hfile : file ∈ walk.found.documents) :
    ∀ t ∈ targetsIn root directory file, t = Path.normalize root.sourcePath ∨
      t ∈ (asked ++ [(target, answer)]).map Prod.fst ∨ t ∈ current ∨
        ∃ entry ∈ walk.pending, t ∈ entry.2 := by
  intro t ht
  rw [List.map_append, List.mem_append]
  rcases h.covers file hfile t ht with hroot | hasked | hcurrent | hpending
  · exact Or.inl hroot
  · exact Or.inr (Or.inl (Or.inl hasked))
  · rcases List.mem_cons.mp hcurrent with rfl | hcurrent
    · exact Or.inr (Or.inl (Or.inr List.mem_cons_self))
    · exact Or.inr (Or.inr (Or.inl hcurrent))
  · exact Or.inr (Or.inr (Or.inr hpending))

/-- A request for a new target is the first one for it. -/
theorem nodup_request : ((asked ++ [(target, answer)]).map Prod.fst).Nodup := by
  rw [List.map_append, List.map_singleton, ← List.concat_eq_append]
  exact h.asked_nodup.concat (h.target_new hunknown).1

/-- The root is not the target of a new request. -/
theorem root_not_mem_request :
    Path.normalize root.sourcePath ∉ (asked ++ [(target, answer)]).map Prod.fst := by
  rw [List.map_append, List.mem_append, not_or]
  exact ⟨h.root_not_asked, fun hmem => (h.target_new hunknown).2 (List.mem_singleton.mp hmem).symm⟩

include hgives

/-- The loader has given the answer to a new request. -/
theorem gives_request (path : String) (other : LoaderAnswer)
    (hmem : (path, other) ∈ asked ++ [(target, answer)]) : loader.Gives path other := by
  rcases List.mem_append.mp hmem with hmem | hmem
  · exact h.of_asked path other hmem
  · obtain ⟨rfl, rfl⟩ := Prod.mk.inj (List.mem_singleton.mp hmem)
    exact hgives

/-- A target that fails is recorded as failed. -/
theorem fail {failure : LoadFailure} (herror : answer.result target = .error failure) :
    Walk.Follows loader root directory (asked ++ [(target, answer)]) visited
      { walk with found := { walk.found with
          failed := walk.found.failed ++ [(target, failure.reason)] } } current where
  asked_nodup := h.nodup_request hunknown
  root_not_asked := h.root_not_mem_request hunknown
  of_asked := h.gives_request hunknown hgives
  documents_nodup := h.documents_nodup
  failed_nodup := by
    rw [List.map_append, List.map_singleton, ← List.concat_eq_append]
    exact h.failed_nodup.concat fun hmem => hunknown (Or.inr hmem)
  mem_documents := by
    intro path document
    have hnot : ¬ (path = target ∧ answer.result path = .ok document) := by
      rintro ⟨rfl, hok⟩
      rw [herror] at hok
      cases hok
    rw [exists_mem_request, or_iff_left hnot]
    exact h.mem_documents path document
  mem_failed := by
    intro path reason
    have hmem := h.mem_failed path reason
    simp only [exists_and_left] at hmem ⊢
    rw [exists_mem_request, List.mem_append, hmem, List.mem_singleton, Prod.mk.injEq]
    refine or_congr_right (and_congr_right ?_)
    rintro rfl
    constructor
    · rintro rfl
      exact ⟨failure, herror, rfl⟩
    · rintro ⟨cause, hcause, rfl⟩
      rw [herror] at hcause
      cases hcause
      rfl
  imports_eq := h.imports_eq
  asked_named := by
    intro path hmem
    rw [List.map_append, List.mem_append] at hmem
    rcases hmem with hmem | hmem
    · exact h.asked_named path hmem
    · rw [List.mem_singleton.mp hmem]
      exact h.current_named target List.mem_cons_self
  pending_named := h.pending_named
  current_named := fun t ht => h.current_named t (List.mem_cons_of_mem _ ht)
  covers := h.covers_request hunknown
  length_eq := h.length_eq

/-- A target that loads is recorded with its imports, which are then pending. -/
theorem load {document : Document} (hok : answer.result target = .ok document) :
    Walk.Follows loader root directory (asked ++ [(target, answer)]) visited
      { found := { walk.found with
          documents := walk.found.documents ++ [(target, document)]
          imports := walk.found.imports ++
            [(target, document.importTargets (Path.directory target))] }
        pending := walk.pending ++
          [(target, document.importTargets (Path.directory target))] } current := by
  have htargets : targetsIn root directory (target, document) =
      document.importTargets (Path.directory target) := by
    rw [targetsIn, fileDirectory, if_neg (h.target_new hunknown).2]
  have hnamed : ∀ t, (∃ file ∈ walk.found.documents, t ∈ targetsIn root directory file) →
      ∃ file ∈ walk.found.documents ++ [(target, document)],
        t ∈ targetsIn root directory file := by
    rintro t ⟨file, hfile, ht⟩
    exact ⟨file, List.mem_append_left _ hfile, ht⟩
  constructor
  case asked_nodup => exact h.nodup_request hunknown
  case root_not_asked => exact h.root_not_mem_request hunknown
  case of_asked => exact h.gives_request hunknown hgives
  case documents_nodup =>
    rw [List.map_append, List.map_singleton, ← List.concat_eq_append]
    exact h.documents_nodup.concat fun hmem => hunknown (Or.inl hmem)
  case failed_nodup => exact h.failed_nodup
  case mem_documents =>
    intro path other
    rw [exists_mem_request, List.mem_append, h.mem_documents, List.mem_singleton, Prod.mk.injEq,
      or_assoc]
    refine or_congr_right (or_congr_right (and_congr_right ?_))
    rintro rfl
    rw [hok, Except.ok.injEq, eq_comm]
  case mem_failed =>
    intro path reason
    have hmem := h.mem_failed path reason
    simp only [exists_and_left] at hmem ⊢
    have hnot : ¬ (path = target ∧ ∃ cause, answer.result path = .error cause ∧
        cause.reason = reason) := by
      rintro ⟨rfl, cause, hcause, -⟩
      rw [hok] at hcause
      cases hcause
    rw [exists_mem_request, or_iff_left hnot]
    exact hmem
  case imports_eq =>
    rw [List.map_append, List.map_singleton, htargets, ← h.imports_eq]
  case asked_named =>
    intro path hmem
    rw [List.map_append, List.mem_append] at hmem
    rcases hmem with hmem | hmem
    · exact hnamed path (h.asked_named path hmem)
    · rw [List.mem_singleton.mp hmem]
      exact hnamed target (h.current_named target List.mem_cons_self)
  case pending_named =>
    intro entry hmem t ht
    rcases List.mem_append.mp hmem with hmem | hmem
    · exact hnamed t (h.pending_named entry hmem t ht)
    · rw [List.mem_singleton.mp hmem, ← htargets] at ht
      exact ⟨_, List.mem_append_right _ List.mem_cons_self, ht⟩
  case current_named =>
    exact fun t ht => hnamed t (h.current_named t (List.mem_cons_of_mem _ ht))
  case covers =>
    intro file hfile t ht
    rcases List.mem_append.mp hfile with hfile | hfile
    · rcases h.covers_request hunknown file hfile t ht with
        hroot | hasked | hcurrent | ⟨entry, hentry, hpending⟩
      · exact Or.inl hroot
      · exact Or.inr (Or.inl hasked)
      · exact Or.inr (Or.inr (Or.inl hcurrent))
      · exact Or.inr (Or.inr (Or.inr ⟨entry, List.mem_append_left _ hentry, hpending⟩))
    · -- the targets of the new document are pending from now on
      rw [List.mem_singleton.mp hfile, htargets] at ht
      exact Or.inr (Or.inr (Or.inr ⟨_, List.mem_append_right _ List.mem_cons_self, ht⟩))
  case length_eq =>
    simp only [List.length_append, List.length_singleton, h.length_eq]
    omega

end Request

/-- Visiting one import keeps a walk following its requests. -/
theorem visit {importer target : String} {index : Nat} {state : σ}
    (h : walk.Follows loader root directory asked visited (target :: current)) :
    let after := ((Closure.visit loader.noted importer walk (target, index)).run
      (state, asked)).run
    Walk.Follows loader root directory after.2.2 visited after.1 current := by
  -- the four ways of a visit: failed before, found before, fails now, loads now
  unfold Closure.visit
  dsimp only
  cases hfailed : walk.found.failed.lookup target with
  | some reason => exact (h.skip (Walk.knows_of_lookup hfailed)).addFailure _
  | none =>
    dsimp only
    split
    · rename_i hfound
      exact h.skip (Walk.knows_of_any hfound)
    · rename_i hfound
      have hunknown : ¬ walk.Knows target := Walk.not_knows hfailed hfound
      obtain ⟨answer, after, hgives, hload⟩ := loader.exists_run_load_noted target state asked
      simp only [StateT.run_bind, Id.run_bind, hload]
      cases hresult : answer.result target with
      | error failure => exact (h.fail hunknown hgives hresult).addFailure _
      | ok document => exact h.load hunknown hgives hresult

/-- Visiting the imports of a file keeps a walk following its requests. -/
theorem visitAll {importer : String} {edges : List (String × Nat)} {state : σ}
    (h : walk.Follows loader root directory asked visited (edges.map Prod.fst)) :
    let after := ((edges.foldlM (Closure.visit loader.noted importer) walk).run
      (state, asked)).run
    Walk.Follows loader root directory after.2.2 visited after.1 [] := by
  induction edges generalizing walk asked state with
  | nil => exact h
  | cons edge rest ih =>
    rw [List.foldlM_cons]
    simp only [StateT.run_bind, Id.run_bind]
    exact ih h.visit

/-- Taking a file from the queue keeps a walk following its requests: its targets are the ones to
visit now. -/
theorem next {importer : String} {targets : List String} {rest : List (String × List String)}
    (h : walk.Follows loader root directory asked visited [])
    (hpending : walk.pending = (importer, targets) :: rest) :
    Walk.Follows loader root directory asked (visited + 1) { walk with pending := rest } targets :=
  { h with
    pending_named := fun entry hmem =>
      h.pending_named entry (by rw [hpending]; exact List.mem_cons_of_mem _ hmem)
    current_named :=
      h.pending_named (importer, targets) (by rw [hpending]; exact List.mem_cons_self)
    covers := by
      intro file hfile t ht
      rcases h.covers file hfile t ht with hroot | hasked | hcurrent | ⟨entry, hentry, hp⟩
      · exact Or.inl hroot
      · exact Or.inr (Or.inl hasked)
      · exact absurd hcurrent List.not_mem_nil
      · rw [hpending] at hentry
        rcases List.mem_cons.mp hentry with rfl | hentry
        · exact Or.inr (Or.inr (Or.inl hp))
        · exact Or.inr (Or.inr (Or.inr ⟨entry, hentry, hp⟩))
    length_eq := by
      rw [h.length_eq, hpending, List.length_cons]
      show visited + (rest.length + 1) = visited + 1 + rest.length
      omega }

/-- A walk goes on until it has visited as many files as it may or comes to an end, and follows its
requests all the way. -/
theorem visitPending {limit : Nat} {state : σ}
    (h : walk.Follows loader root directory asked visited []) :
    let after := ((Closure.visitPending loader.noted limit walk).run (state, asked)).run
    ∃ total, Walk.Follows loader root directory after.2.2 total after.1 [] ∧
      (after.1.pending = [] ∨ total = visited + limit) := by
  induction limit generalizing walk asked visited state with
  | zero => exact ⟨visited, h, Or.inr rfl⟩
  | succ limit ih =>
    unfold Closure.visitPending
    cases hpending : walk.pending with
    | nil => exact ⟨visited, h, Or.inl hpending⟩
    | cons entry rest =>
      have hnext : Walk.Follows loader root directory asked (visited + 1)
          { walk with pending := rest } (entry.2.zipIdx.map Prod.fst) := by
        rw [List.zipIdx_map_fst]
        exact h.next hpending
      simp only [StateT.run_bind, Id.run_bind]
      obtain ⟨total, hfollows, hend⟩ := ih hnext.visitAll
      exact ⟨total, hfollows, hend.imp_right fun heq => by omega⟩

end Walk.Follows

/-- The walk that has found nothing but the root follows that no file has been asked for. -/
theorem follows_start {σ : Type} (loader : Loader (StateM σ)) (root : Document)
    (directory : Option String) :
    (start root directory).Follows loader root directory [] 0 [] := by
  have hroot : targetsIn root directory (Path.normalize root.sourcePath, root) =
      root.importTargets (rootDirectory root directory) := by
    rw [targetsIn, fileDirectory, if_pos rfl]
  constructor
  case asked_nodup => exact List.nodup_nil
  case root_not_asked => exact List.not_mem_nil
  case of_asked => exact fun path answer hmem => absurd hmem List.not_mem_nil
  case documents_nodup => exact List.nodup_singleton _
  case failed_nodup => exact List.nodup_nil
  case mem_documents => simp [start]
  case mem_failed => simp [start]
  case imports_eq => simp [start, hroot]
  case asked_named => exact fun path hmem => absurd hmem List.not_mem_nil
  case pending_named =>
    intro entry hmem target htarget
    rw [List.mem_singleton.mp hmem, ← hroot] at htarget
    exact ⟨_, List.mem_cons_self, htarget⟩
  case current_named => exact fun target hmem => absurd hmem List.not_mem_nil
  case covers =>
    intro file hfile target htarget
    rw [List.mem_singleton.mp hfile, hroot] at htarget
    exact Or.inr (Or.inr (Or.inr ⟨_, List.mem_cons_self, htarget⟩))
  case length_eq => rfl

/-! ## The closure of a root -/

section Limit

variable {m : Type → Type} [Monad m] (loader : Loader m)

/-- A walk with no pending files is at its end. -/
theorem visitPending_of_nil {walk : Walk} (h : walk.pending = []) (limit : Nat) :
    visitPending loader limit walk = pure walk := by
  cases limit with
  | zero => rfl
  | succ limit =>
    unfold visitPending
    rw [h]

/-- A walk with a greater limit goes on where one with a smaller limit stops. -/
theorem visitPending_add [LawfulMonad m] (limit more : Nat) (walk : Walk) :
    visitPending loader (limit + more) walk =
      visitPending loader limit walk >>= visitPending loader more := by
  induction limit generalizing walk with
  | zero => rw [Nat.zero_add, visitPending, pure_bind]
  | succ limit ih =>
    rw [Nat.add_right_comm]
    cases hpending : walk.pending with
    | nil => simp only [visitPending_of_nil loader hpending, pure_bind]
    | cons entry rest =>
      unfold visitPending
      simp only [hpending, ih, bind_assoc]

end Limit

section Root

variable {σ : Type} (loader : Loader (StateM σ)) (state : σ) (root : Document)
  (directory : Option String)

/-- A file is **named** when the root or a document that is recorded on the way, however far it
goes, imports it. -/
def Named (path : String) : Prop :=
  ∃ limit, ∃ file ∈ ((resolve loader limit root directory).run state).run.1.documents,
    path ∈ targetsIn root directory file

variable {loader state root directory}

/-- A closure whose walk has come to its end does not depend on the limit. -/
theorem run_resolve_add {limit : Nat}
    (h : ((visitPending loader limit (start root directory)).run state).run.1.pending = [])
    (more : Nat) : ((resolve loader (limit + more) root directory).run state).run =
      ((resolve loader limit root directory).run state).run := by
  unfold resolve
  simp only [visitPending_add, StateT.run_bind, Id.run_bind, visitPending_of_nil loader h,
    StateT.run_pure, Id.run_pure]

/-- The documents of a walk that follows its requests are those of the root and of named files. -/
theorem Walk.Follows.length_documents_le {asked : List Loader.Request} {visited limit : Nat}
    {walk : Walk} (h : walk.Follows loader root directory asked visited [])
    (hfound : walk.found = ((resolve loader limit root directory).run state).run.1)
    (hfinite : {path | Named loader state root directory path}.Finite) :
    walk.found.documents.length ≤ {path | Named loader state root directory path}.ncard + 1 := by
  have hsubset : (↑(walk.found.documents.map Prod.fst).toFinset : Set String) ⊆
      insert (Path.normalize root.sourcePath) {path | Named loader state root directory path} := by
    intro path hmem
    rw [Finset.mem_coe, List.mem_toFinset] at hmem
    rcases h.knows_iff.mp (Or.inl hmem) with hroot | hasked
    · exact Or.inl hroot
    · obtain ⟨file, hfile, htarget⟩ := h.asked_named path hasked
      exact Or.inr ⟨limit, file, hfound ▸ hfile, htarget⟩
  calc walk.found.documents.length
      = (walk.found.documents.map Prod.fst).toFinset.card := by
        rw [List.toFinset_card_of_nodup h.documents_nodup, List.length_map]
    _ = (↑(walk.found.documents.map Prod.fst).toFinset : Set String).ncard :=
        (Set.ncard_coe_finset _).symm
    _ ≤ (insert (Path.normalize root.sourcePath)
          {path | Named loader state root directory path}).ncard :=
        Set.ncard_le_ncard hsubset (hfinite.insert _)
    _ ≤ _ := Set.ncard_insert_le _ _

end Root

/-- **Every file is requested at most once.** Whatever a loader answers, a walk that names finitely
many files and may visit more than these comes to an end. It has requested the targets of the root
and of the documents that it has recorded, each of them once and the root never. It has recorded the
documents and the reasons that it has been answered, so that a file whose only request has failed
has no document. -/
theorem files_are_requested_once {σ : Type} (loader : Loader (StateM σ)) (state : σ)
    (root : Document) (directory : Option String) (limit : Nat)
    (hfinite : {path | Named loader state root directory path}.Finite)
    (henough : {path | Named loader state root directory path}.ncard < limit) :
    let run := ((resolve loader.noted limit root directory).run (state, [])).run
    let closure := run.1
    let asked := run.2.2
    let rootPath := Path.normalize root.sourcePath
    closure = ((resolve loader limit root directory).run state).run.1 ∧
    ((visitPending loader limit (start root directory)).run state).run.1.pending = [] ∧
    (asked.map Prod.fst).Nodup ∧
    rootPath ∉ asked.map Prod.fst ∧
    (∀ path, path ∈ asked.map Prod.fst ↔
      path ≠ rootPath ∧ ∃ file ∈ closure.documents, path ∈ targetsIn root directory file) ∧
    (∀ path document, (path, document) ∈ closure.documents ↔
      path = rootPath ∧ document = root ∨
        ∃ answer, (path, answer) ∈ asked ∧ answer.result path = .ok document) ∧
    (closure.failed.map Prod.fst).Nodup ∧
    (∀ path reason, (path, reason) ∈ closure.failed ↔
      ∃ answer failure, (path, answer) ∈ asked ∧ answer.result path = .error failure ∧
        failure.reason = reason) ∧
    (∀ path answer failure, (path, answer) ∈ asked → answer.result path = .error failure →
      (path, failure.reason) ∈ closure.failed ∧ path ∉ closure.documents.map Prod.fst ∧
        path ∉ closure.imports.map Prod.fst) := by
  intro run closure asked rootPath
  set ended := ((visitPending loader.noted limit (start root directory)).run (state, [])).run
  obtain ⟨total, hfollows, hend⟩ : ∃ total, Walk.Follows loader root directory ended.2.2 total
      ended.1 [] ∧ (ended.1.pending = [] ∨ total = 0 + limit) :=
    (follows_start loader root directory).visitPending
  have hclosure : closure = ended.1.found := rfl
  have hasked : asked = ended.2.2 := rfl
  have hsame : closure = ((resolve loader limit root directory).run state).run.1 :=
    (notes_resolve loader limit root directory state []).1
  have hlength := hfollows.length_eq
  have hle := hfollows.length_documents_le (hclosure.symm.trans hsame) hfinite
  have hpending : ended.1.pending = [] := by
    rcases hend with hnil | htotal
    · exact hnil
    · exact List.length_eq_zero_iff.mp (by omega)
  refine ⟨hsame, ?_, hfollows.asked_nodup, hfollows.root_not_asked,
    fun path => ⟨fun hmem => ?_, ?_⟩, hfollows.mem_documents, hfollows.failed_nodup,
    hfollows.mem_failed, fun path answer failure hmem herror => ?_⟩
  · rw [← (notes_visitPending loader limit _ state []).1]
    exact hpending
  · refine ⟨fun heq => hfollows.root_not_asked ?_, hfollows.asked_named path hmem⟩
    rw [heq] at hmem
    exact hmem
  · rintro ⟨hroot, file, hfile, htarget⟩
    rcases hfollows.covers file hfile path htarget with heq | hmem | hcurrent | ⟨entry, hentry, -⟩
    · exact absurd heq hroot
    · exact hmem
    · exact absurd hcurrent List.not_mem_nil
    · rw [hpending] at hentry
      exact absurd hentry List.not_mem_nil
  · have hno := hfollows.not_mem_documents hmem herror
    refine ⟨(hfollows.mem_failed _ _).mpr ⟨answer, failure, hmem, herror, rfl⟩, hno, ?_⟩
    have hkeys : closure.imports.map Prod.fst = closure.documents.map Prod.fst := by
      rw [hclosure, hfollows.imports_eq, List.map_map]
      rfl
    rw [hkeys]
    exact hno

/-! ## A loader that changes its answers -/

/-- A loader that counts its requests. It answers the first one with a file that imports itself, the
root and a third file, and breaks off at every other one. -/
def fadingLoader : Loader (StateM Nat) where
  ask path := do
    let calls ← get
    set (calls + 1)
    return if calls = 0 then
      .document
        { package := "b", sourcePath := path,
          imports := [{ uri := "b.fidl" }, { uri := "a.fidl" }, { uri := "c.fidl" }] }
    else .raised "OSError" "gone"
  notify _ := pure ()

/-- A root that imports a file in two spellings. -/
def fadingRoot : Document :=
  { package := "a", sourcePath := "/p/a.fidl",
    imports := [{ uri := "b.fidl" }, { uri := "./c.fidl" }, { uri := "c.fidl" }] }

/-- The walk from that root names three files. -/
theorem mem_of_named_fadingRoot {path : String} (h : Named fadingLoader 0 fadingRoot none path) :
    path ∈ ["/p/a.fidl", "/p/b.fidl", "/p/c.fidl"] := by
  obtain ⟨limit, file, hfile, htarget⟩ := h
  have hall : ∀ file ∈ ((resolve fadingLoader limit fadingRoot none).run 0).run.1.documents,
      ∀ target ∈ targetsIn fadingRoot none file,
        target ∈ ["/p/a.fidl", "/p/b.fidl", "/p/c.fidl"] := by
    rcases limit with _ | _ | more
    · decide +kernel
    · decide +kernel
    · -- two files have been visited and none is left
      have hend : ((visitPending fadingLoader 2 (start fadingRoot none)).run 0).run.1.pending =
          [] := by decide +kernel
      rw [Nat.add_assoc, Nat.add_comm, run_resolve_add hend]
      decide +kernel
  exact hall file hfile path htarget

/-- So a walk that may visit four files comes to its end. -/
theorem finite_named_fadingRoot :
    {path | Named fadingLoader 0 fadingRoot none path}.Finite ∧
      {path | Named fadingLoader 0 fadingRoot none path}.ncard < 4 := by
  have hsubset : {path | Named fadingLoader 0 fadingRoot none path} ⊆
      (["/p/a.fidl", "/p/b.fidl", "/p/c.fidl"].toFinset : Set String) :=
    fun path h => List.mem_toFinset.mpr (mem_of_named_fadingRoot h)
  refine ⟨(Finset.finite_toSet _).subset hsubset, ?_⟩
  refine (Set.ncard_le_ncard hsubset (Finset.finite_toSet _)).trans_lt ?_
  rw [Set.ncard_coe_finset]
  decide

/-- The other two files are requested once each, and the one that fails has no document. -/
theorem requests_fadingLoader :
    {path | Named fadingLoader 0 fadingRoot none path}.Finite ∧
    {path | Named fadingLoader 0 fadingRoot none path}.ncard < 4 ∧
    ((resolve fadingLoader.noted 4 fadingRoot none).run (0, [])).run.2.2.map Prod.fst =
      ["/p/b.fidl", "/p/c.fidl"] ∧
    ("/p/c.fidl", "OSError: gone") ∈
      ((resolve fadingLoader.noted 4 fadingRoot none).run (0, [])).run.1.failed ∧
    "/p/c.fidl" ∉ ((resolve fadingLoader.noted 4 fadingRoot none).run
      (0, [])).run.1.documents.map Prod.fst := by
  obtain ⟨hfinite, henough⟩ := finite_named_fadingRoot
  have hpaths : ((resolve fadingLoader.noted 4 fadingRoot none).run (0, [])).run.2.2.map Prod.fst =
      ["/p/b.fidl", "/p/c.fidl"] := by decide +kernel
  have hasked : ("/p/c.fidl", .raised "OSError" "gone") ∈
      ((resolve fadingLoader.noted 4 fadingRoot none).run (0, [])).run.2.2 := by decide +kernel
  obtain ⟨-, -, -, -, -, -, -, -, hfailed⟩ :=
    files_are_requested_once fadingLoader 0 fadingRoot none 4 hfinite henough
  obtain ⟨hmem, hno, -⟩ :=
    hfailed "/p/c.fidl" (.raised "OSError" "gone") ⟨"/p/c.fidl", "OSError: gone"⟩ hasked rfl
  exact ⟨hfinite, henough, hpaths, hmem, hno⟩

end Closure

end FrancaLint
