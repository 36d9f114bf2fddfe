import FrancaLint.Proofs.CommandLine.ProjectFiles
import FrancaLint.Proofs.Closure.BrokenImports
import FrancaLint.Proofs.Validation.SharedCache

/-! # The sources of a run

The sources of a run share what has been read from files and the index of the project. While no file
changes and every involved file has one name, neither shows: what is found for a source depends on
the source, the settings and the project alone.

* `Involved`, the files that a run deals with; `Involved.mem_of_closed` bounds them, and by
  `Involved.identifier_of_load` each of them has a document of its own name.
* `sourceFindings`, what is found for a source on its own, and `yields_validateAll`: sources one
  after another.
* `run_eq_conclude`: the findings of a run. -/

namespace FrancaLint

open CommandLine Closure

variable (fs : FileSystem Id) (arguments : Arguments)

/-! ## Involved files -/

/-- The file that a source names. -/
def sourceFile (source : String) : String :=
  (fs.absolute source).run

/-- A file is **involved** in a run when it is a source, imported by one, directly or through other
files, or a file of the project. -/
inductive Involved : String → Prop where
  /-- A source. -/
  | source {source : String} (hsource : source ∈ arguments.sources) :
      Involved (sourceFile fs source)
  /-- A file that can be reached from a source. -/
  | reachable {source path : String} {root : Document} (hsource : source ∈ arguments.sources)
      (hroot : (fileAnswer fs .utf8 (sourceFile fs source)).result (sourceFile fs source) =
        .ok root)
      (hreach : Reachable (fileAnswer fs .utf8) root none path) : Involved path
  /-- A file of the project. -/
  | project {settings : Settings} {files : List String} {path : String}
      (hsettings : (readSettings fs arguments).run = .ok settings)
      (hfiles : projectFiles fs arguments settings = .ok (some files)) (hpath : path ∈ files) :
      Involved path

/-- The files that a file asks for, none if it has no document. -/
def askedFiles (path : String) : List String :=
  match (fileAnswer fs .utf8 path).result path with
  | .ok document => document.importTargets (Path.directory path)
  | .error _ => []

/-- The document of a file that is involved. -/
def InvolvedDocument (document : Document) : Prop :=
  ∃ path, Involved fs arguments path ∧ (fileAnswer fs .utf8 path).result path = .ok document

section Involved

variable {fs arguments}

/-- Files that ask for no others, the sources and the files of the project among them, are all files
that are involved. -/
theorem Involved.mem_of_closed {files : List String}
    (hnormal : ∀ path ∈ files, Path.normalize path = path)
    (hsources : ∀ source ∈ arguments.sources, sourceFile fs source ∈ files)
    (hproject : ∀ settings project, (readSettings fs arguments).run = .ok settings →
      projectFiles fs arguments settings = .ok (some project) → project ⊆ files)
    (hclosed : ∀ path ∈ files, askedFiles fs path ⊆ files) {path : String}
    (h : Involved fs arguments path) : path ∈ files := by
  cases h with
  | source hsource => exact hsources _ hsource
  | project hsettings hfiles hpath => exact hproject _ _ hsettings hfiles hpath
  | @reachable source path root hsource hroot hreach =>
    have hnamed := hnormal _ (hsources source hsource)
    have hpath : root.sourcePath = sourceFile fs source := by
      rw [sourcePath_of_fileAnswer hroot, hnamed]
    induction hreach with
    | root =>
      rw [hpath, hnamed]
      exact hsources source hsource
    | @target importer target reached imported ih =>
      have hasked : target ∈ askedFiles fs importer := by
        by_cases himporter : importer = root.identifier
        · subst himporter
          have hidentifier : root.identifier = sourceFile fs source := by
            rw [Document.identifier, hpath, hnamed]
          rw [Document.identifier, fileTargets_root] at imported
          rw [askedFiles, hidentifier, hroot]
          rwa [rootDirectory, Document.directory, hpath] at imported
        · obtain ⟨document, hdocument⟩ := exists_fileDocument?_of_mem_fileTargets imported
          rcases fileDocument?_eq_some_iff.mp hdocument with ⟨heq, -⟩ | ⟨-, hload⟩
          · exact absurd heq himporter
          · rw [askedFiles, hload]
            rwa [fileTargets_of_ok himporter hload] at imported
      exact hclosed importer ih hasked

variable (hnormal : ∀ path, Involved fs arguments path → Path.normalize path = path)
include hnormal

/-- The document of an involved file has the name of the file. -/
theorem Involved.identifier_of_load {path : String} {document : Document}
    (h : Involved fs arguments path)
    (hload : (fileAnswer fs .utf8 path).result path = .ok document) :
    document.identifier = path := by
  rw [Document.identifier, sourcePath_of_fileAnswer hload, hnormal path h, hnormal path h]

/-- The versions of involved documents tell what is declared: one file has one document. -/
theorem versionsTell_involved : VersionsTell (InvolvedDocument fs arguments) := by
  rintro document other ⟨path, hpath, hload⟩ ⟨path', hpath', hload'⟩ hstamp
  have hidentifier : document.identifier = other.identifier := congrArg Prod.fst hstamp
  rw [hpath.identifier_of_load hnormal hload, hpath'.identifier_of_load hnormal hload']
    at hidentifier
  rw [hidentifier, hload', Except.ok.injEq] at hload
  subst hload
  exact ⟨rfl, fun named => Iff.rfl⟩

/-- The documents of the project are involved. -/
theorem involvedDocument_of_project {settings : Settings} {files : List String}
    (hsettings : (readSettings fs arguments).run = .ok settings)
    (hfiles : projectFiles fs arguments settings = .ok (some files)) {document : Document}
    (h : document ∈ answeredDocuments (fileAnswer fs .utf8) files) :
    InvolvedDocument fs arguments document := by
  obtain ⟨path, hpath, hload⟩ := mem_answeredDocuments_iff.mp h
  have hinvolved := Involved.project hsettings hfiles hpath
  rw [hnormal path hinvolved] at hload
  exact ⟨path, hinvolved, hload⟩

/-- The closure of a source holds involved documents of its files. -/
theorem filed_of_source {source : String} (hsource : source ∈ arguments.sources)
    {root : Document}
    (hroot : (fileAnswer fs .utf8 (sourceFile fs source)).result (sourceFile fs source) =
      .ok root) (limit : Nat) :
    (resolve (Loader.ofFunction (fileAnswer fs .utf8)) limit root none).run.Filed
      (InvolvedDocument fs arguments) := by
  rintro ⟨path, document⟩ hpair
  obtain ⟨hreach, hdocument⟩ := of_mem_documents_resolve hpair
  rcases fileDocument?_eq_some_iff.mp hdocument with ⟨rfl, rfl⟩ | ⟨-, hload⟩
  · exact ⟨⟨sourceFile fs source, .source hsource, hroot⟩, rfl⟩
  · have hinvolved := Involved.reachable hsource hroot hreach
    exact ⟨⟨path, hinvolved, hload⟩, hinvolved.identifier_of_load hnormal hload⟩

end Involved

/-! ## Sources one after another -/

/-- What is found for a source on its own. -/
def sourceFindings (settings : Settings) (limit : Nat) (project : Option (List Document))
    (source : String) : List Diagnostic :=
  ((pureChecker (fileAnswer fs .utf8) settings limit).validatePath (sourceFile fs source) project
    {}).run.1.diagnostics

variable {fs arguments} (settings : Settings) (limit : Nat) {project : Option (List Document)}
variable (hnormal : ∀ path, Involved fs arguments path → Path.normalize path = path)
  (hproject : ∀ documents, project = some documents → ∀ document ∈ documents,
    InvolvedDocument fs arguments document)
include hnormal hproject

/-- With a coherent cache a source is validated as on its own, and the cache stays coherent. -/
theorem validatePath_source {source : String} (hsource : source ∈ arguments.sources)
    {cache : IndexCache} (hcache : cache.Coherent (InvolvedDocument fs arguments)) :
    let outcome := ((pureChecker (fileAnswer fs .utf8) settings limit).validatePath
      (sourceFile fs source) project cache).run
    outcome.1.diagnostics = sourceFindings fs settings limit project source ∧
      outcome.2.Coherent (InvolvedDocument fs arguments) := by
  intro outcome
  have hnamed := hnormal _ (.source hsource)
  obtain ⟨hreport, hafter⟩ := validatePath_of_coherent settings limit hcache
    (versionsTell_involved hnormal) hproject (sourceFile fs source)
    fun root hroot => filed_of_source hnormal hsource (by rwa [hnamed] at hroot) limit
  exact ⟨congrArg Validation.diagnostics hreport, hafter⟩

/-- Sources are validated one after another as each of them is on its own. -/
theorem yields_validateAll (notify : Notice → Id Unit) {sources : List String}
    (hsources : sources ⊆ arguments.sources) {cache : IndexCache}
    (hcache : cache.Coherent (InvolvedDocument fs arguments)) :
    Yields (FileCache.Agrees fs .utf8)
      (validateAll ⟨fileLoader fs .utf8 notify, settings, limit⟩
        (fun source => StateT.lift (fs.absolute source)) project sources cache)
      (sources.flatMap (sourceFindings fs settings limit project)) := by
  induction sources generalizing cache with
  | nil => exact .pure _
  | cons source rest ih =>
    obtain ⟨hsource, hrest⟩ := List.cons_subset.mp hsources
    obtain ⟨hfound, hafter⟩ := validatePath_source settings limit hnormal hproject hsource hcache
    rw [List.flatMap_cons, ← hfound]
    refine (Yields.lift _).bind ?_
    refine ((fileLoader_answers notify).validatePath settings limit project cache _).bind ?_
    exact (ih hrest hafter).bind (.pure _)

/-! ## The findings of a run -/

/-- The sources in front of the first one whose name is not even looked up. -/
def usableSources (sources : List String) : List String :=
  sources.takeWhile fun source => !FileName.hasNull source

omit hproject in
/-- The sources of a run are validated with the documents of its project. -/
theorem yields_validateSources (notify : Notice → Id Unit)
    (hsettings : (readSettings fs arguments).run = .ok settings) :
    Yields (FileCache.Agrees fs .utf8)
      (validateSources fs (fileLoader fs .utf8 notify) arguments settings)
      (do
        let files ← projectFiles fs arguments settings
        conclude arguments ((usableSources arguments.sources).flatMap
          (sourceFindings fs settings 0x4000000000000000
            (files.map (answeredDocuments (fileAnswer fs .utf8)))))) := by
  unfold validateSources
  refine (yields_readProject fs arguments settings notify).bind ?_
  cases hfiles : projectFiles fs arguments settings with
  | error fault => exact .pure _
  | ok files =>
    have hproject : ∀ documents, files.map (answeredDocuments (fileAnswer fs .utf8)) =
        some documents → ∀ document ∈ documents, InvolvedDocument fs arguments document := by
      intro documents hdocuments document hmem
      obtain ⟨files, rfl, rfl⟩ := Option.map_eq_some_iff.mp hdocuments
      exact involvedDocument_of_project hnormal hsettings hfiles hmem
    have hnew : IndexCache.Coherent (InvolvedDocument fs arguments) {} :=
      IndexCache.coherent_of_snapshot_eq_none rfl
    exact (yields_validateAll settings _ hnormal hproject notify
      (List.takeWhile_subset _) hnew).bind (.pure _)

omit hproject in
/-- The findings of a run are those for its sources. -/
theorem run_eq_conclude (log : Notice → Id Unit) : (run fs log arguments).run =
    (do
      let settings ← (readSettings fs arguments).run
      let files ← projectFiles fs arguments settings
      conclude arguments ((usableSources arguments.sources).flatMap
        (sourceFindings fs settings 0x4000000000000000
          (files.map (answeredDocuments (fileAnswer fs .utf8)))))) := by
  unfold run
  rw [Id.run_bind]
  cases hsettings : (readSettings fs arguments).run with
  | error fault => rfl
  | ok settings =>
    exact (yields_validateSources settings hnormal _ hsettings [] FileCache.agrees_nil).1

end FrancaLint
