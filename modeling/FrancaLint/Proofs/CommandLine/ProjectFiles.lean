import FrancaLint.CommandLine.Run
import FrancaLint.Proofs.Disk.Files

/-! # The project of a run

The files of a project are looked up and loaded before any source is validated. What they stand for
does not depend on the sources.

* `Loader.Answers.loadProject`, for a loader that answers like a function.
* `projectFiles`, the files of the project of a run, and `yields_readProject`: the run loads the
  documents of these files. -/

namespace FrancaLint

open CommandLine

/-! ## Loading a project -/

/-- The documents that some files stand for, as far as there are any. -/
def answeredDocuments (answer : String → LoaderAnswer) (files : List String) : List Document :=
  files.filterMap fun path =>
    ((answer (Path.normalize path)).result (Path.normalize path)).toOption

/-- A document that some files stand for is the answer for one of them. -/
theorem mem_answeredDocuments_iff {answer : String → LoaderAnswer} {files : List String}
    {document : Document} : document ∈ answeredDocuments answer files ↔
      ∃ path ∈ files,
        (answer (Path.normalize path)).result (Path.normalize path) = .ok document := by
  rw [answeredDocuments, List.mem_filterMap]
  constructor
  · rintro ⟨path, hpath, hdocument⟩
    refine ⟨path, hpath, ?_⟩
    cases hresult : (answer (Path.normalize path)).result (Path.normalize path) with
    | error failure =>
      rw [hresult] at hdocument
      cases hdocument
    | ok found =>
      rw [hresult] at hdocument
      cases hdocument
      rfl
  · rintro ⟨path, hpath, hresult⟩
    exact ⟨path, hpath, by rw [hresult]; rfl⟩

/-- The documents of some files and of further ones come in this order. -/
theorem answeredDocuments_append (answer : String → LoaderAnswer) (files further : List String) :
    answeredDocuments answer (files ++ further) =
      answeredDocuments answer files ++ answeredDocuments answer further :=
  List.filterMap_append

section Load

variable {σ : Type} {inv : σ → Prop} {loader : Loader (StateM σ)}
variable {answer : String → LoaderAnswer} (h : loader.Answers inv answer)
include h

/-- Loading a file of a project adds the document that it stands for. -/
theorem Loader.Answers.addFile (project : Project) (path : String) :
    Keeps inv (Project.addFile loader project path) fun after =>
      after.documents = project.documents ++ answeredDocuments answer [path] := by
  unfold Project.addFile
  refine Keeps.bind (h.load _) ?_
  rintro _ rfl
  unfold answeredDocuments
  rw [List.filterMap_cons]
  cases (answer (Path.normalize path)).result (Path.normalize path) with
  | error failure => exact .pure (List.append_nil _).symm
  | ok document => exact .pure rfl

/-- Loading files of a project adds the documents that they stand for. -/
theorem Loader.Answers.addFiles (files : List String) (project : Project) :
    Keeps inv (files.foldlM (Project.addFile loader) project) fun after =>
      after.documents = project.documents ++ answeredDocuments answer files := by
  induction files generalizing project with
  | nil => exact .pure (List.append_nil _).symm
  | cons path rest ih =>
    have hcons : answeredDocuments answer (path :: rest) =
        answeredDocuments answer [path] ++ answeredDocuments answer rest :=
      answeredDocuments_append answer [path] rest
    rw [List.foldlM_cons, hcons, ← List.append_assoc]
    refine Keeps.bind (h.addFile project path) fun after hafter => ?_
    rw [← hafter]
    exact ih after

/-- Loading a project gives the documents that its files stand for. -/
theorem Loader.Answers.loadProject (directory root : String) (files : List String) :
    Keeps inv (Project.load loader directory root files) fun project =>
      project.documents = answeredDocuments answer files := by
  unfold Project.load
  refine Keeps.bind (h.addFiles files _) fun project hproject => ?_
  refine Keeps.bind (h.notify _) ?_
  rintro _ rfl
  exact .pure hproject

end Load

/-! ## The project of a run -/

variable (fs : FileSystem Id) (arguments : Arguments) (settings : Settings)

/-- The files of the project below a directory. -/
def filesBelow (root : String) : Except RunFault (List String) :=
  (Project.discover fs (fs.absolute root).run settings.skippedDirectories).run.mapError
    .unusableName

/-- The files of the project of a run, none if the settings do not ask for it. -/
def projectFiles : Except RunFault (Option (List String)) :=
  match (findProject fs arguments settings).run with
  | .error fault => .error fault
  | .ok none => .ok none
  | .ok (some root) => (filesBelow fs settings root).map some

/-- The files of the project below a directory are those of its files that belong to it. -/
theorem filesBelow_of_isDirectory {root : String}
    (hnull : FileName.hasNull (fs.absolute root).run = false)
    (hdirectory : (fs.isDirectory (fs.absolute root).run).run = .ok true) :
    filesBelow fs settings root =
      .ok (Project.arrange (fs.absolute root).run settings.skippedDirectories
        (fs.filesBelow (fs.absolute root).run).run) := by
  unfold filesBelow Project.discover
  rw [hnull, if_neg Bool.false_ne_true, Id.run_bind, hdirectory]
  rfl

/-- A file belongs to a project below a directory when it is one of its files and no skipped one. -/
theorem mem_arrange_iff {root path : String} {skipped : List String} {files : List (List String)} :
    path ∈ Project.arrange root skipped files ↔
      ∃ names ∈ files, Project.isMember skipped names = true ∧
        FileName.below root names = path := by
  simp only [Project.arrange, List.mem_map, List.mem_mergeSort, List.mem_filter, and_assoc]

variable (notify : Notice → Id Unit)

/-- The project below a directory has the documents that its files stand for. -/
theorem yields_loadProject (root : String) : Yields (FileCache.Agrees fs .utf8)
    (loadProject fs (fileLoader fs .utf8 notify) settings root)
    ((filesBelow fs settings root).map (answeredDocuments (fileAnswer fs .utf8))) := by
  have hloader : (fileLoader fs .utf8 notify).Answers (FileCache.Agrees fs .utf8)
      (fileAnswer fs .utf8) := fileLoader_answers notify
  unfold loadProject filesBelow
  refine (Yields.lift _).bind ((Yields.lift _).bind ?_)
  cases (Project.discover fs (fs.absolute root).run settings.skippedDirectories).run with
  | error fault => exact .pure _
  | ok files =>
    refine Keeps.bind (hloader.loadProject root _ files) fun project hproject => ?_
    refine Yields.bind (Yields.forM (fun failure => hloader.notify _) project.failures) ?_
    exact Keeps.pure (congrArg Except.ok hproject)

/-- A run loads the documents of the files of its project. -/
theorem yields_readProject : Yields (FileCache.Agrees fs .utf8)
    (readProject fs (fileLoader fs .utf8 notify) arguments settings)
    ((projectFiles fs arguments settings).map
      (Option.map (answeredDocuments (fileAnswer fs .utf8)))) := by
  unfold readProject projectFiles
  refine (Yields.lift _).bind ?_
  cases (findProject fs arguments settings).run with
  | error fault => exact .pure _
  | ok root? =>
    cases root? with
    | none => exact .pure _
    | some root =>
      refine (yields_loadProject fs settings notify root).bind ?_
      dsimp only
      cases filesBelow fs settings root with
      | error fault => exact .pure _
      | ok files => exact .pure _

end FrancaLint
