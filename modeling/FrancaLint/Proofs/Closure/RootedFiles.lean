import FrancaLint.Proofs.Closure.FailedImports
import FrancaLint.Proofs.Path.Roots

/-! # Files that start at the root

A closure names files by identifiers that start at the root, if the imports of its root document are
relative to a directory that does. Each file that is loaded has such a directory again, even one
whose own identifier has lost its root; so only a URI that loses its root can bring in an identifier
that does not start there.

* `Mentions`, the identifiers that a closure mentions; `mentions_resolve_iff`: the root and the
  targets of its documents.
* `Walk.AtRoot`, the invariant of a walk: directories start at the root. `keeps_visit_atRoot` and
  `keeps_visitPending_atRoot` keep it.
* `files_start_at_root`: when spellings, resolved imports and all of a closure start at the root,
  with `files_driveRoot` and `isAbsolute_bareDrive` for a URI that loses its root. -/

namespace FrancaLint.Closure

open FrancaLint.Path (StartsAtRoot LosesRoot)

variable {σ : Type} {loader : Loader (StateM σ)} {root : Document} {directory : Option String}
  {walk : Walk}

/-! ## What a closure mentions -/

/-- A closure **mentions** an identifier when it is one of its keys, the target of an import, or an
end of a failed import. -/
inductive Mentions (closure : Closure) : String → Prop where
  /-- The root. -/
  | root : Mentions closure closure.root
  /-- A file with a document. -/
  | document {file : String × Document} (h : file ∈ closure.documents) : Mentions closure file.1
  /-- A file that could not be loaded. -/
  | failed {entry : String × String} (h : entry ∈ closure.failed) : Mentions closure entry.1
  /-- A file with imports. -/
  | importer {entry : String × List String} (h : entry ∈ closure.imports) :
      Mentions closure entry.1
  /-- The target of an import. -/
  | target {entry : String × List String} {path : String} (h : entry ∈ closure.imports)
      (htarget : path ∈ entry.2) : Mentions closure path
  /-- The file that declares a failed import. -/
  | failedImporter {edge : FailedImport} (h : edge ∈ closure.failedImports) :
      Mentions closure edge.importer
  /-- The target of a failed import. -/
  | failedTarget {edge : FailedImport} (h : edge ∈ closure.failedImports) :
      Mentions closure edge.target

/-- A document that a walk has found is the root or has been imported by another one. -/
theorem Walk.Follows.root_or_named {asked : List Loader.Request} {visited : Nat}
    {current : List String} (h : walk.Follows loader root directory asked visited current)
    {file : String × Document} (hfile : file ∈ walk.found.documents) :
    file.1 = Path.normalize root.sourcePath ∨
      ∃ other ∈ walk.found.documents, file.1 ∈ targetsIn root directory other := by
  -- what has been answered has been asked for, and only targets are asked for
  rcases (h.mem_documents file.1 file.2).mp hfile with ⟨hname, -⟩ | ⟨answer, hasked, -⟩
  · exact Or.inl hname
  · exact Or.inr (h.asked_named file.1 (List.mem_map_of_mem hasked))

/-- The imports that a walk has found are those of its documents. -/
theorem Walk.Follows.exists_file {asked : List Loader.Request} {visited : Nat}
    {current : List String} (h : walk.Follows loader root directory asked visited current)
    {entry : String × List String} (hentry : entry ∈ walk.found.imports) :
    ∃ file ∈ walk.found.documents, entry = (file.1, targetsIn root directory file) := by
  rw [h.imports_eq] at hentry
  obtain ⟨file, hfile, rfl⟩ := List.mem_map.mp hentry
  exact ⟨file, hfile, rfl⟩

/-- A failed import that a walk has recorded is one of the imports it has found. -/
theorem Walk.Records.exists_entry {taken : List (String × List String)}
    (h : walk.Records root taken (taken.flatMap statementsOf)) {edge : FailedImport}
    (hedge : edge ∈ walk.found.failedImports) :
    ∃ entry ∈ walk.found.imports, edge.importer = entry.1 ∧ edge.target ∈ entry.2 := by
  rw [h.failedImports_eq] at hedge
  obtain ⟨statement, hstatement, hfailure⟩ := List.mem_filterMap.mp hedge
  obtain ⟨rfl, -⟩ := failure?_eq_some_iff.mp hfailure
  obtain ⟨entry, hentry, hof⟩ := List.mem_flatMap.mp hstatement
  obtain ⟨himporter, htarget⟩ := mem_statementsOf.mp hof
  refine ⟨entry, ?_, himporter, List.mem_of_getElem? htarget⟩
  rw [h.imports_eq]
  exact List.mem_append_left _ hentry

/-- The closure of a root, however far it goes, mentions the root and the targets of the documents
it has recorded. -/
theorem mentions_resolve_iff (loader : Loader (StateM σ)) (state : σ) (root : Document)
    (directory : Option String) (limit : Nat) {path : String} :
    let closure := ((resolve loader limit root directory).run state).run.1
    closure.Mentions path ↔ path = Path.normalize root.sourcePath ∨
      ∃ file ∈ closure.documents, path ∈ targetsIn root directory file := by
  intro closure
  set ended := ((visitPending loader limit (start root directory)).run state).run.1
  have hclosure : closure = ended.found := rfl
  obtain ⟨asked, visited, hfollows, -⟩ : ∃ asked visited,
      ended.Follows loader root directory asked visited [] ∧
        (ended.pending = [] ∨ visited = limit) := exists_follows loader state root directory limit
  obtain ⟨taken, hrecords⟩ : ∃ taken, ended.Records root taken (taken.flatMap statementsOf) :=
    ((records_start root directory).keeps_visitPending state trivial).1
  have hroot : closure.root = Path.normalize root.sourcePath :=
    (keeps_resolve limit root directory state trivial).1.1
  constructor
  · intro h
    cases h with
    | root => exact Or.inl hroot
    | document hfile => exact hfollows.root_or_named hfile
    | failed hentry =>
      obtain ⟨answer, failure, hasked, -⟩ := (hfollows.mem_failed _ _).mp hentry
      exact Or.inr (hfollows.asked_named _ (List.mem_map_of_mem hasked))
    | importer hentry =>
      obtain ⟨file, hfile, rfl⟩ := hfollows.exists_file hentry
      exact hfollows.root_or_named hfile
    | target hentry htarget =>
      obtain ⟨file, hfile, rfl⟩ := hfollows.exists_file hentry
      exact Or.inr ⟨file, hfile, htarget⟩
    | failedImporter hedge =>
      obtain ⟨entry, hentry, himporter, -⟩ := hrecords.exists_entry hedge
      obtain ⟨file, hfile, rfl⟩ := hfollows.exists_file hentry
      rw [himporter]
      exact hfollows.root_or_named hfile
    | failedTarget hedge =>
      obtain ⟨entry, hentry, -, htarget⟩ := hrecords.exists_entry hedge
      obtain ⟨file, hfile, rfl⟩ := hfollows.exists_file hentry
      exact Or.inr ⟨file, hfile, htarget⟩
  · rintro (rfl | ⟨file, hfile, htarget⟩)
    · rw [← hroot]
      exact .root
    · have hentry : (file.1, targetsIn root directory file) ∈ closure.imports := by
        rw [hclosure, hfollows.imports_eq]
        exact List.mem_map_of_mem hfile
      exact .target hentry htarget

/-! ## Directories of a walk -/

/-- The directories of a walk **start at the root**: those of the documents it has found, and those
of the targets it has still to visit. -/
structure Walk.AtRoot (root : Document) (directory : Option String) (walk : Walk) : Prop where
  /-- The imports of a document are relative to such a directory. -/
  documents : ∀ file ∈ walk.found.documents, StartsAtRoot (fileDirectory root directory file.1)
  /-- A target that is still to be visited is in such a directory. -/
  pending : ∀ entry ∈ walk.pending, ∀ target ∈ entry.2, StartsAtRoot (Path.directory target)

/-- The targets in a directory that starts at the root are in directories that do. -/
theorem startsAtRoot_of_mem_importTargets {base target : String} (hbase : StartsAtRoot base)
    {document : Document} (h : target ∈ document.importTargets base) :
    StartsAtRoot (Path.directory target) := by
  obtain ⟨declared, -, rfl⟩ := List.mem_map.mp h
  exact Path.startsAtRoot_directory_resolve hbase declared.uri

/-- The imports of a file are relative to its own directory or to that of the root. -/
theorem startsAtRoot_fileDirectory (hroot : StartsAtRoot (rootDirectory root directory))
    {path : String} (h : StartsAtRoot (Path.directory path)) :
    StartsAtRoot (fileDirectory root directory path) := by
  unfold fileDirectory
  split
  · exact hroot
  · exact h

/-- One more file keeps the directories at the root. -/
theorem Walk.AtRoot.addFile (h : walk.AtRoot root directory)
    (hroot : StartsAtRoot (rootDirectory root directory)) {target : String}
    (htarget : StartsAtRoot (Path.directory target)) (document : Document) :
    let targets := document.importTargets (Path.directory target)
    Walk.AtRoot root directory {
      found := { walk.found with
        documents := walk.found.documents ++ [(target, document)]
        imports := walk.found.imports ++ [(target, targets)] }
      pending := walk.pending ++ [(target, targets)] } where
  documents := by
    intro file hfile
    rcases List.mem_append.mp hfile with hfile | hfile
    · exact h.documents file hfile
    · rw [List.mem_singleton.mp hfile]
      exact startsAtRoot_fileDirectory hroot htarget
  pending := by
    intro entry hentry
    rcases List.mem_append.mp hentry with hentry | hentry
    · exact h.pending entry hentry
    · rw [List.mem_singleton.mp hentry]
      exact fun _ hmem => startsAtRoot_of_mem_importTargets htarget hmem

/-- Visiting an import keeps the directories at the root. -/
theorem keeps_visit_atRoot {importer : String} {edge : String × Nat}
    (hroot : StartsAtRoot (rootDirectory root directory)) (h : walk.AtRoot root directory)
    (hedge : StartsAtRoot (Path.directory edge.1)) :
    Keeps (fun _ => True) (visit loader importer walk edge) (Walk.AtRoot root directory) := by
  unfold visit
  dsimp only
  cases walk.found.failed.lookup edge.1 with
  | some reason => exact .pure ⟨h.documents, h.pending⟩
  | none =>
    dsimp only
    split
    · exact .pure h
    · refine (Keeps.any _).bind fun result _ => ?_
      cases result with
      | error failure => exact (Keeps.any _).bind fun _ _ => .pure ⟨h.documents, h.pending⟩
      | ok document => exact (Keeps.any _).bind fun _ _ => .pure (h.addFile hroot hedge document)

/-- Visiting pending files keeps the directories at the root. -/
theorem keeps_visitPending_atRoot {limit : Nat}
    (hroot : StartsAtRoot (rootDirectory root directory)) (h : walk.AtRoot root directory) :
    Keeps (fun _ => True) (visitPending loader limit walk) (Walk.AtRoot root directory) := by
  induction limit generalizing walk with
  | zero => exact .pure h
  | succ limit ih =>
    unfold visitPending
    cases hpending : walk.pending with
    | nil => exact .pure h
    | cons entry rest =>
      have htargets : ∀ target ∈ entry.2, StartsAtRoot (Path.directory target) :=
        h.pending entry (by rw [hpending]; exact List.mem_cons_self)
      have hnext : Walk.AtRoot root directory { walk with pending := rest } :=
        ⟨h.documents, fun other hother =>
          h.pending other (by rw [hpending]; exact List.mem_cons_of_mem _ hother)⟩
      refine Keeps.bind (Keeps.foldlM ?_ hnext) fun after hafter => ih hafter
      -- every target of the file was pending, so its directory is at the root
      intro edge hedge before hbefore
      exact keeps_visit_atRoot hroot hbefore (htargets _ (List.fst_mem_of_mem_zipIdx hedge))

/-- The walk that has found nothing but the root. -/
theorem atRoot_start (hroot : StartsAtRoot (rootDirectory root directory)) :
    (start root directory).AtRoot root directory where
  documents := by
    refine List.forall_mem_singleton.mpr ?_
    rw [fileDirectory, if_pos rfl]
    exact hroot
  pending := List.forall_mem_singleton.mpr fun _ hmem =>
    startsAtRoot_of_mem_importTargets hroot hmem

/-! ## All of a closure -/

/-- The documents of a closure whose root imports relative to a directory at the root import
relative to such directories as well. -/
theorem startsAtRoot_of_mem_documents (hroot : StartsAtRoot (rootDirectory root directory))
    {state : σ} {limit : Nat} {file : String × Document}
    (hfile : file ∈ ((resolve loader limit root directory).run state).run.1.documents) :
    StartsAtRoot (fileDirectory root directory file.1) :=
  ((keeps_visitPending_atRoot hroot (atRoot_start hroot)) state trivial).1.documents file hfile

/-- A closure whose root imports relative to a directory at the root mentions only identifiers that
start at the root, exactly if that of the root does and none of the recorded imports loses its
root. -/
theorem startsAtRoot_mentions_iff (hroot : StartsAtRoot (rootDirectory root directory))
    (state : σ) (limit : Nat) :
    let closure := ((resolve loader limit root directory).run state).run.1
    (∀ path, closure.Mentions path → StartsAtRoot path) ↔
      StartsAtRoot (Path.normalize root.sourcePath) ∧
        ∀ file ∈ closure.documents, ∀ declared ∈ file.2.imports,
          ¬ LosesRoot declared.uri.toList := by
  intro closure
  have hmentions : ∀ {path}, closure.Mentions path ↔ path = Path.normalize root.sourcePath ∨
      ∃ file ∈ closure.documents, path ∈ targetsIn root directory file :=
    mentions_resolve_iff loader state root directory limit
  constructor
  · -- the root and every target are mentioned themselves
    intro h
    refine ⟨h _ (hmentions.mpr (Or.inl rfl)), fun file hfile declared hdeclared => ?_⟩
    rw [← Path.startsAtRoot_resolve_iff (startsAtRoot_of_mem_documents hroot hfile)]
    exact h _ (hmentions.mpr (Or.inr ⟨file, hfile, List.mem_map_of_mem hdeclared⟩))
  · rintro ⟨hself, himports⟩ path hpath
    rcases hmentions.mp hpath with rfl | ⟨file, hfile, htarget⟩
    · exact hself
    · obtain ⟨declared, hdeclared, rfl⟩ := List.mem_map.mp htarget
      rw [Path.startsAtRoot_resolve_iff (startsAtRoot_of_mem_documents hroot hfile)]
      exact himports file hfile declared hdeclared

/-- **Where files start.** A spelling is absolute exactly if its canonical form starts at the root,
unless it loses its root: it is a drive with nothing behind it, but a scheme or repeated slashes in
front. An import in a directory that starts at the root is resolved to an identifier that does,
unless its URI loses its root. And a closure whose root imports relative to such a directory
mentions only identifiers that start at the root, whatever its loader answers, exactly if that of
the root does and no import that one of its documents declares loses its root. -/
theorem files_start_at_root (uri base : String) (loader : Loader (StateM σ)) (state : σ)
    (root : Document) (directory : Option String) (limit : Nat) :
    let closure := ((resolve loader limit root directory).run state).run.1
    ((Path.isAbsolute uri = true ↔ StartsAtRoot (Path.normalize uri)) ↔
      ¬ LosesRoot uri.toList) ∧
    (StartsAtRoot base → (StartsAtRoot (Path.resolve uri base) ↔ ¬ LosesRoot uri.toList)) ∧
    (StartsAtRoot (rootDirectory root directory) →
      ((∀ path, closure.Mentions path → StartsAtRoot path) ↔
        StartsAtRoot (Path.normalize root.sourcePath) ∧
          ∀ file ∈ closure.documents, ∀ declared ∈ file.2.imports,
            ¬ LosesRoot declared.uri.toList)) := by
  intro closure
  refine ⟨?_, fun hbase => Path.startsAtRoot_resolve_iff hbase,
    fun hroot => startsAtRoot_mentions_iff hroot state limit⟩
  rw [Path.startsAtRoot_normalize_iff]
  constructor
  · exact fun h hloses => (h.mp hloses.isAbsoluteChars).2 hloses
  · exact fun hkeeps => ⟨fun habsolute => ⟨habsolute, hkeeps⟩, And.left⟩

/-- A root that imports a file and a drive. -/
def driveRoot : Document :=
  { package := "p", sourcePath := "/p/a.fidl",
    imports := [{ uri := "b.fidl" }, { uri := "file:C:" }] }

/-- A loader that finds nothing. -/
def idleLoader : Loader (StateM Unit) where
  ask _ := pure .nothing
  notify _ := pure ()

/-- The file is resolved in the directory of the root. The drive loses its root, and the closure
mentions what is left of it. -/
theorem files_driveRoot :
    StartsAtRoot (rootDirectory driveRoot none) ∧
    StartsAtRoot (Path.resolve "b.fidl" "/p") ∧ ¬ StartsAtRoot (Path.resolve "file:C:" "/p") ∧
    ¬ ∀ path, (((resolve idleLoader 1 driveRoot none).run ()).run.1).Mentions path →
      StartsAtRoot path := by
  have hroot : StartsAtRoot (rootDirectory driveRoot none) := by decide +kernel
  have hbase : StartsAtRoot "/p" := by decide
  have hloses : LosesRoot "file:C:".toList := by decide +kernel
  obtain ⟨-, hfile, hclosure⟩ := files_start_at_root "b.fidl" "/p" idleLoader () driveRoot none 1
  obtain ⟨-, hdrive, -⟩ := files_start_at_root "file:C:" "/p" idleLoader () driveRoot none 1
  refine ⟨hroot, (hfile hbase).mpr (by decide +kernel),
    fun hstarts => (hdrive hbase).mp hstarts hloses, fun hall => ?_⟩
  obtain ⟨-, himports⟩ := (hclosure hroot).mp hall
  exact himports ("/p/a.fidl", driveRoot) (by decide +kernel) { uri := "file:C:" }
    (by decide) hloses

/-- A drive behind a scheme is absolute, but its canonical form is a relative path, to which it is
resolved in any directory. -/
theorem isAbsolute_bareDrive :
    Path.isAbsolute "file:C:" = true ∧ Path.normalize "file:C:" = "." ∧
    Path.resolve "file:C:" "/p" = "." ∧
    ¬ ∀ path, Path.isAbsolute path = true ↔ StartsAtRoot (Path.normalize path) := by
  have habsolute : Path.isAbsolute "file:C:" = true := by decide +kernel
  have hnormal : Path.normalize "file:C:" = "." := by decide +kernel
  refine ⟨habsolute, hnormal, by decide +kernel, fun h => ?_⟩
  have hstarts := (h "file:C:").mp habsolute
  rw [hnormal] at hstarts
  exact absurd hstarts (by decide)

end FrancaLint.Closure
