import FrancaLint.Proofs.Closure.Composition
import FrancaLint.Proofs.Closure.Requests
import FrancaLint.Proofs.Closure.RootImports

/-! # The record of failed imports

Whatever a loader answers, a walk records each import statement whose target fails exactly once,
also when one file names the target twice. It records the statement that has the target asked for,
and each one that it visits after the target has failed. No target fails after a statement has been
passed over because of it: by then the target has been found.

* `statementsOf`, the import statements of a file, and `failure?`, the record of one of them.
* `Walk.Records`, the invariant of a walk: its failed imports are those of the statements it has
  seen, in their order. `Walk.Records.keeps_visit` and `keeps_visitPending` keep it.
* `Accounted`, what follows for a closure, with `accounted_resolve`.
* `failed_imports_are_recorded_once`: what it means for the closure of a root and for the findings
  about its imports. -/

namespace FrancaLint.Closure

/-! ## Import statements -/

/-- An import **statement**: the file that declares it, its target and its position there. -/
abbrev Statement :=
  String × String × Nat

/-- The import statements of a file with some targets. -/
def statementsOf (entry : String × List String) : List Statement :=
  entry.2.zipIdx.map fun edge => (entry.1, edge)

/-- The **failure** of a statement: its record, if its target is one of those that have failed. -/
def failure? (failed : List (String × String)) (statement : Statement) : Option FailedImport :=
  (failed.lookup statement.2.1).map fun reason =>
    ⟨statement.1, statement.2.1, reason, statement.2.2⟩

/-- The failure of a statement is its record with a reason why the target has failed. -/
theorem failure?_eq_some_iff {failed : List (String × String)} {statement : Statement}
    {edge : FailedImport} : failure? failed statement = some edge ↔
      statement = (edge.importer, edge.target, edge.index) ∧
        failed.lookup edge.target = some edge.reason := by
  rw [failure?, Option.map_eq_some_iff]
  constructor
  · rintro ⟨reason, hreason, rfl⟩
    exact ⟨rfl, hreason⟩
  · rintro ⟨rfl, hreason⟩
    exact ⟨_, hreason, rfl⟩

/-- The failure of a statement has its file and its position. -/
theorem key_of_failure? {failed : List (String × String)} {statement : Statement}
    {edge : FailedImport} (h : failure? failed statement = some edge) :
    (edge.importer, edge.index) = (statement.1, statement.2.2) := by
  obtain ⟨rfl, -⟩ := failure?_eq_some_iff.mp h
  rfl

/-- A statement whose target has not failed has no failure. -/
theorem failure?_of_lookup_eq_none {failed : List (String × String)} {statement : Statement}
    (h : failed.lookup statement.2.1 = none) : failure? failed statement = none := by
  rw [failure?, h, Option.map_none]

/-- One more failed target leaves the failures of the other targets as they are. -/
theorem failure?_append_of_ne {failed : List (String × String)} {statement : Statement}
    {target : String} (h : statement.2.1 ≠ target) (reason : String) :
    failure? (failed ++ [(target, reason)]) statement = failure? failed statement := by
  have hnone : [(target, reason)].lookup statement.2.1 = none :=
    List.lookup_eq_none_iff.mpr (List.forall_mem_singleton.mpr (bne_iff_ne.mpr h))
  rw [failure?, failure?, List.lookup_append, hnone, Option.or_none]

/-! ## What a walk records -/

variable {σ : Type} {loader : Loader (StateM σ)} {root : Document}
  {taken : List (String × List String)} {seen : List Statement} {walk : Walk}

/-- A walk **records** the failures of the statements it has seen, in their order. The files that it
has taken from the queue are the first ones it has found, and the very first one is the root. -/
structure Walk.Records (root : Document) (taken : List (String × List String))
    (seen : List Statement) (walk : Walk) : Prop where
  /-- The root has been found first. -/
  documents_eq : ∃ loaded, walk.found.documents = (Path.normalize root.sourcePath, root) :: loaded
  /-- The files with imports are those taken from the queue and those in it. -/
  imports_eq : walk.found.imports = taken ++ walk.pending
  /-- The targets of the statements are known. -/
  known : ∀ statement ∈ seen, walk.Knows statement.2.1
  /-- The failed imports are the failures of the statements. -/
  failedImports_eq : walk.found.failedImports = seen.filterMap (failure? walk.found.failed)

namespace Walk.Records

variable {importer target : String} {index : Nat}

/-- A statement whose target has failed before is recorded with the reason of that failure. -/
theorem again {reason : String} (h : walk.Records root taken seen)
    (hfailed : walk.found.failed.lookup target = some reason) :
    Walk.Records root taken (seen ++ [(importer, target, index)])
      { walk with found := walk.found.addFailure ⟨importer, target, reason, index⟩ } where
  documents_eq := h.documents_eq
  imports_eq := h.imports_eq
  known := List.forall_mem_append.mpr
    ⟨h.known, List.forall_mem_singleton.mpr (Walk.knows_of_lookup hfailed)⟩
  failedImports_eq := by
    have hnew : failure? walk.found.failed (importer, target, index) =
        some ⟨importer, target, reason, index⟩ := by rw [failure?, hfailed, Option.map_some]
    show walk.found.failedImports ++ [_] =
      (seen ++ [(importer, target, index)]).filterMap (failure? walk.found.failed)
    rw [List.filterMap_append, List.filterMap_cons_some hnew, List.filterMap_nil,
      h.failedImports_eq]

/-- A statement whose target has been found is passed over. -/
theorem passOver (h : walk.Records root taken seen)
    (hfailed : walk.found.failed.lookup target = none)
    (hfound : walk.found.documents.any (·.1 == target) = true) :
    walk.Records root taken (seen ++ [(importer, target, index)]) where
  documents_eq := h.documents_eq
  imports_eq := h.imports_eq
  known := List.forall_mem_append.mpr
    ⟨h.known, List.forall_mem_singleton.mpr (Walk.knows_of_any hfound)⟩
  failedImports_eq := by
    rw [List.filterMap_append, List.filterMap_cons_none (failure?_of_lookup_eq_none hfailed),
      List.filterMap_nil, List.append_nil]
    exact h.failedImports_eq

/-- A statement whose target fails now is recorded; no statement seen before has that target. -/
theorem fail (h : walk.Records root taken seen)
    (hfailed : walk.found.failed.lookup target = none) (hunknown : ¬ walk.Knows target)
    (reason : String) :
    Walk.Records root taken (seen ++ [(importer, target, index)])
      { walk with
        found := addFailure
          { walk.found with failed := walk.found.failed ++ [(target, reason)] }
          ⟨importer, target, reason, index⟩ } where
  documents_eq := h.documents_eq
  imports_eq := h.imports_eq
  known := by
    intro statement hmem
    rcases List.mem_append.mp hmem with hmem | hmem
    · exact (h.known statement hmem).imp_right fun hfailed => by
        simpa [addFailure] using Or.inl hfailed
    · rw [List.mem_singleton.mp hmem]
      exact Or.inr (by simp [addFailure])
  failedImports_eq := by
    have hbefore : seen.filterMap (failure? (walk.found.failed ++ [(target, reason)])) =
        seen.filterMap (failure? walk.found.failed) := by
      refine List.filterMap_congr fun statement hmem => failure?_append_of_ne ?_ reason
      rintro rfl
      exact hunknown (h.known statement hmem)
    have hnew : failure? (walk.found.failed ++ [(target, reason)]) (importer, target, index) =
        some ⟨importer, target, reason, index⟩ := by
      rw [failure?, List.lookup_append, hfailed, Option.none_or, List.lookup_cons_self,
        Option.map_some]
    show walk.found.failedImports ++ [_] = (seen ++ [(importer, target, index)]).filterMap
      (failure? (walk.found.failed ++ [(target, reason)]))
    rw [List.filterMap_append, List.filterMap_cons_some hnew, List.filterMap_nil, hbefore,
      h.failedImports_eq]

/-- A statement whose target loads now is passed over, and the target has been found. -/
theorem load (h : walk.Records root taken seen)
    (hfailed : walk.found.failed.lookup target = none) (document : Document)
    (targets : List String) :
    Walk.Records root taken (seen ++ [(importer, target, index)]) {
      found := { walk.found with
        documents := walk.found.documents ++ [(target, document)]
        imports := walk.found.imports ++ [(target, targets)] }
      pending := walk.pending ++ [(target, targets)] } where
  documents_eq := by
    obtain ⟨loaded, heq⟩ := h.documents_eq
    exact ⟨loaded ++ [(target, document)], by rw [heq, List.cons_append]⟩
  imports_eq := by rw [h.imports_eq, List.append_assoc]
  known := by
    intro statement hmem
    rcases List.mem_append.mp hmem with hmem | hmem
    · exact (h.known statement hmem).imp_left fun hfound => by simpa using Or.inl hfound
    · rw [List.mem_singleton.mp hmem]
      exact Or.inl (by simp)
  failedImports_eq := by
    rw [List.filterMap_append, List.filterMap_cons_none (failure?_of_lookup_eq_none hfailed),
      List.filterMap_nil, List.append_nil]
    exact h.failedImports_eq

/-- Visiting an import records its statement, whatever the loader answers. -/
theorem keeps_visit {edge : String × Nat} (h : walk.Records root taken seen) :
    Keeps (fun _ => True) (visit loader importer walk edge)
      (Walk.Records root taken (seen ++ [(importer, edge)])) := by
  -- the four ways of a visit: failed before, found before, fails now, loads now
  unfold visit
  dsimp only
  cases hfailed : walk.found.failed.lookup edge.1 with
  | some reason => exact .pure (h.again hfailed)
  | none =>
    dsimp only
    split
    · rename_i hfound
      exact .pure (h.passOver hfailed hfound)
    · rename_i hfound
      refine (Keeps.any _).bind fun result _ => ?_
      cases result with
      | error failure =>
        exact (Keeps.any _).bind fun _ _ =>
          .pure (h.fail hfailed (Walk.not_knows hfailed hfound) failure.reason)
      | ok document => exact (Keeps.any _).bind fun _ _ => .pure (h.load hfailed document _)

/-- Visiting the imports of a file records their statements. -/
theorem keeps_visitAll {edges : List (String × Nat)} (h : walk.Records root taken seen) :
    Keeps (fun _ => True) (edges.foldlM (visit loader importer) walk)
      (Walk.Records root taken (seen ++ edges.map fun edge => (importer, edge))) := by
  induction edges generalizing walk seen with
  | nil =>
    rw [List.map_nil, List.append_nil]
    exact .pure h
  | cons edge rest ih =>
    rw [List.foldlM_cons, List.map_cons, List.append_cons]
    exact h.keeps_visit.bind fun _ hnext => ih hnext

/-- Taking a file from the queue changes nothing else. -/
theorem next (h : walk.Records root taken seen) {entry : String × List String}
    {rest : List (String × List String)} (hpending : walk.pending = entry :: rest) :
    Walk.Records root (taken ++ [entry]) seen { walk with pending := rest } where
  documents_eq := h.documents_eq
  imports_eq := by
    rw [List.append_assoc, List.singleton_append, ← hpending]
    exact h.imports_eq
  known := h.known
  failedImports_eq := h.failedImports_eq

/-- Visiting pending files records the statements of those that are visited. -/
theorem keeps_visitPending {limit : Nat}
    (h : walk.Records root taken (taken.flatMap statementsOf)) :
    Keeps (fun _ => True) (visitPending loader limit walk) fun ended =>
      ∃ taken, ended.Records root taken (taken.flatMap statementsOf) := by
  induction limit generalizing walk taken with
  | zero => exact .pure ⟨taken, h⟩
  | succ limit ih =>
    unfold visitPending
    cases hpending : walk.pending with
    | nil => exact .pure ⟨taken, h⟩
    | cons entry rest =>
      refine (h.next hpending).keeps_visitAll.bind fun after hafter => ?_
      have hnext : after.Records root (taken ++ [entry])
          ((taken ++ [entry]).flatMap statementsOf) := by
        rw [List.flatMap_append, List.flatMap_singleton]
        exact hafter
      exact ih hnext

end Walk.Records

/-- The walk that has found nothing but the root records that no statement has been seen. -/
theorem records_start (root : Document) (directory : Option String) :
    (start root directory).Records root [] [] where
  documents_eq := ⟨[], rfl⟩
  imports_eq := rfl
  known := fun _ hmem => absurd hmem List.not_mem_nil
  failedImports_eq := rfl

/-! ## The failed imports of a closure -/

/-- A statement of a file has the file's identifier, and its target at its position. -/
theorem mem_statementsOf {entry : String × List String} {statement : Statement} :
    statement ∈ statementsOf entry ↔
      statement.1 = entry.1 ∧ entry.2[statement.2.2]? = some statement.2.1 := by
  obtain ⟨importer, edge⟩ := statement
  rw [statementsOf, List.mem_map, ← List.mem_zipIdx_iff_getElem?]
  constructor
  · rintro ⟨edge, hedge, heq⟩
    obtain ⟨rfl, rfl⟩ := Prod.mk.inj heq
    exact ⟨rfl, hedge⟩
  · rintro ⟨rfl, hedge⟩
    exact ⟨edge, hedge, rfl⟩

/-- Among files with distinct identifiers, no two import statements have both their file and their
position in common. -/
theorem nodup_statements {imports : List (String × List String)}
    (h : (imports.map Prod.fst).Nodup) :
    ((imports.flatMap statementsOf).map fun statement => (statement.1, statement.2.2)).Nodup := by
  rw [List.map_flatMap, List.nodup_flatMap]
  constructor
  · intro entry _
    have hpositions : (statementsOf entry).map (fun statement => (statement.1, statement.2.2)) =
        (entry.2.zipIdx.map Prod.snd).map (Prod.mk entry.1) := by
      rw [statementsOf, List.map_map, List.map_map]
      rfl
    rw [hpositions, List.zipIdx_map_snd]
    exact List.Nodup.map (Prod.mk_right_injective entry.1) List.nodup_range'
  · rw [List.Nodup, List.pairwise_map] at h
    refine h.imp fun {first second} hne key hfirst hsecond => hne ?_
    obtain ⟨statement, hstatement, rfl⟩ := List.mem_map.mp hfirst
    obtain ⟨other, hother, heq⟩ := List.mem_map.mp hsecond
    calc first.1 = statement.1 := (mem_statementsOf.mp hstatement).1.symm
      _ = other.1 := (congrArg Prod.fst heq).symm
      _ = second.1 := (mem_statementsOf.mp hother).1

/-- A closure is **accounted for** when its files are the root and others, each with the imports
that it declares, and its failed imports are the failures of all statements of these files. -/
structure Accounted (root : Document) (directory : Option String) (closure : Closure) : Prop where
  /-- The closure is that of the root. -/
  root_eq : closure.root = Path.normalize root.sourcePath
  /-- The root is its first file. -/
  documents_eq : ∃ loaded, closure.documents = (Path.normalize root.sourcePath, root) :: loaded
  /-- No file has two documents. -/
  documents_nodup : (closure.documents.map Prod.fst).Nodup
  /-- No file fails twice. -/
  failed_nodup : (closure.failed.map Prod.fst).Nodup
  /-- The imports are those of the documents. -/
  imports_eq : closure.imports =
    closure.documents.map fun file => (file.1, targetsIn root directory file)
  /-- The failed imports are the failures of the imports. -/
  failedImports_eq : closure.failedImports =
    (closure.imports.flatMap statementsOf).filterMap (failure? closure.failed)

/-- The walk of a root follows its requests until it has visited as many files as it may or comes to
an end. -/
theorem exists_follows (loader : Loader (StateM σ)) (state : σ) (root : Document)
    (directory : Option String) (limit : Nat) :
    let ended := ((visitPending loader limit (start root directory)).run state).run.1
    ∃ asked visited, ended.Follows loader root directory asked visited [] ∧
      (ended.pending = [] ∨ visited = limit) := by
  intro ended
  have hnoted := (notes_visitPending loader limit (start root directory) state []).1
  obtain ⟨total, hfollows, hend⟩ : ∃ total, ended.Follows loader root directory _ total [] ∧
      (ended.pending = [] ∨ total = 0 + limit) := by
    rw [show ended = _ from hnoted.symm]
    exact (follows_start loader root directory).visitPending
  rw [Nat.zero_add] at hend
  exact ⟨_, total, hfollows, hend⟩

/-- The walk of a root that names finitely many files follows its requests to the end. -/
theorem exists_follows_of_finite {state : σ} {directory : Option String} {limit : Nat}
    (hfinite : {path | Named loader state root directory path}.Finite)
    (henough : {path | Named loader state root directory path}.ncard < limit) :
    let ended := ((visitPending loader limit (start root directory)).run state).run.1
    ended.pending = [] ∧
      ∃ asked visited, ended.Follows loader root directory asked visited [] := by
  intro ended
  obtain ⟨asked, visited, hfollows, hend⟩ : ∃ asked visited,
      ended.Follows loader root directory asked visited [] ∧
        (ended.pending = [] ∨ visited = limit) := exists_follows loader state root directory limit
  have hlength := hfollows.length_eq
  have hle := hfollows.length_documents_le rfl hfinite
  refine ⟨?_, asked, visited, hfollows⟩
  rcases hend with hnil | hvisited
  · exact hnil
  · exact List.length_eq_zero_iff.mp (by omega)

/-- The closure of a root that names finitely many files is accounted for. -/
theorem accounted_resolve {state : σ} {directory : Option String} {limit : Nat}
    (hfinite : {path | Named loader state root directory path}.Finite)
    (henough : {path | Named loader state root directory path}.ncard < limit) :
    Accounted root directory ((resolve loader limit root directory).run state).run.1 := by
  obtain ⟨hpending, asked, visited, hfollows⟩ := exists_follows_of_finite hfinite henough
  obtain ⟨taken, hrecords⟩ : ∃ taken, Walk.Records root taken (taken.flatMap statementsOf)
      ((visitPending loader limit (start root directory)).run state).run.1 :=
    ((records_start root directory).keeps_visitPending state trivial).1
  -- the queue is empty, so that all files have been taken from it
  have htaken := hrecords.imports_eq
  rw [hpending, List.append_nil] at htaken
  constructor
  case root_eq => exact (keeps_resolve limit root directory state trivial).1.1
  case documents_eq => exact hrecords.documents_eq
  case documents_nodup => exact hfollows.documents_nodup
  case failed_nodup => exact hfollows.failed_nodup
  case imports_eq => exact hfollows.imports_eq
  case failedImports_eq =>
    rw [← htaken] at hrecords
    exact hrecords.failedImports_eq

/-! ## The findings about failed imports -/

/-- The **errors** on a root: one for each of its import statements whose target has failed. -/
def importErrors (root : Document) (directory : Option String) (closure : Closure) :
    List Diagnostic :=
  root.imports.zipIdx.filterMap fun (declared, index) =>
    let target := Path.resolve declared.uri (rootDirectory root directory)
    (failure? closure.failed (closure.root, target, index)).map fun edge =>
      importError root edge declared

/-- The **warnings** on a root about another file: one for each import statement of that file whose
target has failed. -/
def importWarnings (root : Document) (closure : Closure) (file : String × Document) :
    List Diagnostic :=
  file.2.imports.zipIdx.filterMap fun (declared, index) =>
    let target := Path.resolve declared.uri (Path.directory file.1)
    (failure? closure.failed (file.1, target, index)).map (deepWarning root)

/-- What is said about the failures of a file is said import by import. -/
theorem map_failures (say : FailedImport → Diagnostic) (failed : List (String × String))
    (root : Document) (directory : Option String) (file : String × Document) :
    ((statementsOf (file.1, targetsIn root directory file)).filterMap (failure? failed)).map say =
      file.2.imports.zipIdx.filterMap fun (declared, index) =>
        let target := Path.resolve declared.uri (fileDirectory root directory file.1)
        (failure? failed (file.1, target, index)).map say := by
  rw [statementsOf, targetsIn, Document.importTargets, List.zipIdx_map, List.map_map,
    List.filterMap_map, List.map_filterMap]
  rfl

namespace Accounted

variable {directory : Option String} {closure : Closure}

/-- No statement is recorded twice. -/
theorem nodup_failedImports (h : Accounted root directory closure) :
    (closure.failedImports.map fun edge => (edge.importer, edge.index)).Nodup := by
  have hkeys : (closure.imports.map Prod.fst).Nodup := by
    rw [h.imports_eq, List.map_map]
    exact h.documents_nodup
  have hstatements := nodup_statements hkeys
  rw [List.Nodup, List.pairwise_map] at hstatements
  rw [h.failedImports_eq, List.Nodup, List.pairwise_map, List.pairwise_filterMap]
  refine hstatements.imp fun hne edge hedge other hother heq => hne ?_
  rw [← key_of_failure? hedge, ← key_of_failure? hother]
  exact heq

/-- The statements of the closure are the imports that its documents declare. -/
theorem mem_statements_iff (h : Accounted root directory closure) (statement : Statement) :
    statement ∈ closure.imports.flatMap statementsOf ↔
      ∃ document declared, (statement.1, document) ∈ closure.documents ∧
        document.imports[statement.2.2]? = some declared ∧
        Path.resolve declared.uri (fileDirectory root directory statement.1) = statement.2.1 := by
  obtain ⟨importer, target, index⟩ := statement
  rw [h.imports_eq, List.flatMap_map, List.mem_flatMap]
  constructor
  · rintro ⟨⟨_, document⟩, hfile, hmem⟩
    obtain ⟨rfl, htarget⟩ := mem_statementsOf.mp hmem
    rw [targetsIn, Document.importTargets, List.getElem?_map, Option.map_eq_some_iff] at htarget
    obtain ⟨declared, hdeclared, heq⟩ := htarget
    exact ⟨document, declared, hfile, hdeclared, heq⟩
  · rintro ⟨document, declared, hfile, hdeclared, heq⟩
    refine ⟨_, hfile, mem_statementsOf.mpr ⟨rfl, ?_⟩⟩
    rw [targetsIn, Document.importTargets, List.getElem?_map, Option.map_eq_some_iff]
    exact ⟨declared, hdeclared, heq⟩

/-- An import is recorded as failed exactly if its file declares it at its position and its target
has failed with its reason. -/
theorem mem_failedImports_iff (h : Accounted root directory closure) {edge : FailedImport} :
    edge ∈ closure.failedImports ↔
      (∃ document declared, (edge.importer, document) ∈ closure.documents ∧
        document.imports[edge.index]? = some declared ∧
        Path.resolve declared.uri (fileDirectory root directory edge.importer) = edge.target) ∧
      (edge.target, edge.reason) ∈ closure.failed := by
  have hdeclared := h.mem_statements_iff (edge.importer, edge.target, edge.index)
  rw [← hdeclared, ← Graph.lookup_eq_some_iff_mem h.failed_nodup, h.failedImports_eq,
    List.mem_filterMap]
  constructor
  · rintro ⟨statement, hmem, hfailure⟩
    obtain ⟨rfl, hreason⟩ := failure?_eq_some_iff.mp hfailure
    exact ⟨hmem, hreason⟩
  · rintro ⟨hmem, hreason⟩
    exact ⟨_, hmem, failure?_eq_some_iff.mpr ⟨rfl, hreason⟩⟩

/-- A failed import of the root is one of the imports that the root declares. -/
theorem exists_declared (h : Accounted root directory closure) {edge : FailedImport}
    (hedge : edge ∈ closure.failedImports) (himporter : edge.importer = closure.root) :
    ∃ declared, root.imports[edge.index]? = some declared ∧
      Path.resolve declared.uri (rootDirectory root directory) = edge.target := by
  obtain ⟨⟨document, declared, hfile, hdeclared, heq⟩, -⟩ := h.mem_failedImports_iff.mp hedge
  rw [himporter, h.root_eq] at hfile heq
  rw [fileDirectory, if_pos rfl] at heq
  -- the root has no other document
  obtain ⟨loaded, hloaded⟩ := h.documents_eq
  have hroot : (Path.normalize root.sourcePath, root) ∈ closure.documents := by
    rw [hloaded]
    exact List.mem_cons_self
  obtain rfl : document = root :=
    (Prod.mk.inj (List.inj_on_of_nodup_map h.documents_nodup hfile hroot rfl)).2
  exact ⟨declared, hdeclared, heq⟩

/-- The findings about failed imports are the errors on the root and the warnings about the other
files. -/
theorem brokenImports_eq (h : Accounted root directory closure) {loaded : List (String × Document)}
    (hloaded : closure.documents = (Path.normalize root.sourcePath, root) :: loaded) :
    Rule.brokenImports root closure =
      importErrors root directory closure ++ loaded.flatMap (importWarnings root closure) := by
  have hnodup := h.documents_nodup
  rw [hloaded, List.map_cons, List.nodup_cons] at hnodup
  rw [Rule.brokenImports, h.failedImports_eq, h.imports_eq, hloaded, List.flatMap_map,
    List.flatMap_cons, List.filterMap_append, List.map_append, List.filterMap_flatMap,
    List.map_flatMap]
  congr 1
  · -- a failed import of the root is an error at the import with its position
    rw [map_failures, importErrors, h.root_eq, fileDirectory, if_pos rfl]
    refine List.filterMap_congr fun statement hstatement => ?_
    obtain ⟨declared, index⟩ := statement
    have hdeclared : root.imports[index]? = some declared :=
      List.mem_zipIdx_iff_getElem?.mp hstatement
    refine Option.map_congr fun edge hedge => ?_
    obtain ⟨himporter, hindex⟩ := Prod.mk.inj (key_of_failure? hedge)
    rw [Rule.brokenImport, if_pos (himporter.trans h.root_eq.symm), hindex, hdeclared]
    rw [importError, hindex]
    rfl
  · refine List.flatMap_congr fun file hfile => ?_
    have hne : file.1 ≠ Path.normalize root.sourcePath := by
      intro heq
      exact hnodup.1 (List.mem_map.mpr ⟨file, hfile, heq⟩)
    rw [map_failures, importWarnings, fileDirectory, if_neg hne]
    refine List.filterMap_congr fun statement _ => Option.map_congr fun edge hedge => ?_
    have himporter : edge.importer ≠ closure.root := by
      rw [(Prod.mk.inj (key_of_failure? hedge)).1, h.root_eq]
      exact hne
    rw [Rule.brokenImport, if_neg himporter]
    rfl

end Accounted

/-- **Every failed import is recorded once.** Whatever a loader answers, a walk that names finitely
many files and may visit more than these has recorded one failed import for each import statement
of the root or a loaded file whose target has failed, with that target and the reason of its
failure, and no other one. So a failed import of the root has a position among the imports of the
root, and the findings are one error for each such statement of the root, with its position and
place, and then one warning for each such statement of each other file. -/
theorem failed_imports_are_recorded_once {σ : Type} (loader : Loader (StateM σ)) (state : σ)
    (root : Document) (directory : Option String) (limit : Nat)
    (hfinite : {path | Named loader state root directory path}.Finite)
    (henough : {path | Named loader state root directory path}.ncard < limit) :
    let closure := ((resolve loader limit root directory).run state).run.1
    (closure.documents.map Prod.fst).Nodup ∧
    (closure.failed.map Prod.fst).Nodup ∧
    (closure.failedImports.map fun edge => (edge.importer, edge.index)).Nodup ∧
    (∀ edge, edge ∈ closure.failedImports ↔
      (∃ document declared, (edge.importer, document) ∈ closure.documents ∧
        document.imports[edge.index]? = some declared ∧
        Path.resolve declared.uri (fileDirectory root directory edge.importer) = edge.target) ∧
      (edge.target, edge.reason) ∈ closure.failed) ∧
    (∀ edge ∈ closure.failedImports, edge.importer = closure.root →
      ∃ declared, root.imports[edge.index]? = some declared ∧
        Path.resolve declared.uri (rootDirectory root directory) = edge.target) ∧
    ∃ loaded, closure.documents = (Path.normalize root.sourcePath, root) :: loaded ∧
      Rule.brokenImports root closure =
        importErrors root directory closure ++ loaded.flatMap (importWarnings root closure) := by
  intro closure
  have haccounted : Accounted root directory closure := accounted_resolve hfinite henough
  obtain ⟨loaded, hloaded⟩ := haccounted.documents_eq
  exact ⟨haccounted.documents_nodup, haccounted.failed_nodup, haccounted.nodup_failedImports,
    fun _ => haccounted.mem_failedImports_iff, fun _ => haccounted.exists_declared, loaded, hloaded,
    haccounted.brokenImports_eq hloaded⟩

/-- A root names a file that fails twice, and so does once the file that it imports besides: these
are two errors and a warning. -/
theorem failed_imports_fadingLoader :
    {path | Named fadingLoader 0 fadingRoot none path}.Finite ∧
    {path | Named fadingLoader 0 fadingRoot none path}.ncard < 4 ∧
    let closure := ((resolve fadingLoader 4 fadingRoot none).run 0).run.1
    (closure.failedImports.map fun edge => (edge.importer, edge.index)) =
      [("/p/a.fidl", 1), ("/p/a.fidl", 2), ("/p/b.fidl", 2)] ∧
    (closure.failedImports.map fun edge => (edge.importer, edge.index)).Nodup ∧
    (Rule.brokenImports fadingRoot closure).map (·.severity) = [.error, .error, .warning] ∧
    ∃ loaded : List (String × Document), Rule.brokenImports fadingRoot closure =
      importErrors fadingRoot none closure ++
        loaded.flatMap (importWarnings fadingRoot closure) := by
  obtain ⟨hfinite, henough⟩ := finite_named_fadingRoot
  obtain ⟨-, -, hnodup, -, -, loaded, -, hfindings⟩ :=
    failed_imports_are_recorded_once fadingLoader 0 fadingRoot none 4 hfinite henough
  exact ⟨hfinite, henough, by decide +kernel, hnodup, by decide +kernel, loaded, hfindings⟩

end FrancaLint.Closure
