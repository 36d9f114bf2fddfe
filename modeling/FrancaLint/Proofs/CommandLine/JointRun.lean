import FrancaLint.Disk.FileTree
import FrancaLint.Proofs.CommandLine.SourceRuns
import FrancaLint.Proofs.CommandLine.Words

/-! # Checking files together

Checking several files together is checking them one by one: the findings are those of the single
runs in the order of the sources, and there are errors when a single run has errors.

* `Arguments.only`, the arguments with one source in place of the others.
* `conclude_eq_mapM` and `run_eq_mapM_only`: a run and the single runs, faults included.
* `Arguments.Resolve`, arguments that end in no fault.
* `checking_together_is_one_by_one`. -/

namespace FrancaLint

open CommandLine

/-- The arguments with one source in place of the others. -/
def Arguments.only (arguments : Arguments) (source : String) : Arguments :=
  { arguments with sources := [source] }

/-! ## Faults and findings -/

section Conclude

variable (arguments : Arguments) (found : String → List Diagnostic)

/-- The result of a run that has validated some sources. -/
def concludeFor (sources : List String) : Except RunFault (List Diagnostic) :=
  conclude { arguments with sources := sources } ((usableSources sources).flatMap found)

/-- A name that is not even looked up ends a run. -/
theorem concludeFor_cons_of_hasNull {source : String} (h : FileName.hasNull source = true)
    (rest : List String) :
    concludeFor arguments found (source :: rest) = .error (.unusableName .nullCharacter) := by
  simp [concludeFor, conclude, usableSources, h]

/-- A source with findings ends a run without a text for their messages. -/
theorem concludeFor_cons_of_empty {source : String} (h : FileName.hasNull source = false)
    (hempty : arguments.messageLead = some .empty) (hfound : found source ≠ [])
    (rest : List String) :
    concludeFor arguments found (source :: rest) = .error .messageLeadEmpty := by
  simp [concludeFor, conclude, usableSources, h, hempty, hfound]

/-- Otherwise the findings for a source come in front of those for the sources behind it. -/
theorem concludeFor_cons {source : String} (h : FileName.hasNull source = false)
    (hlead : arguments.messageLead = some .empty → found source = []) (rest : List String) :
    concludeFor arguments found (source :: rest) =
      (concludeFor arguments found rest).map (found source ++ ·) := by
  have husable : usableSources (source :: rest) = source :: usableSources rest := by
    simp [usableSources, h]
  have hnull : (source :: rest).any FileName.hasNull = rest.any FileName.hasNull := by
    rw [List.any_cons, h, Bool.false_or]
  unfold concludeFor conclude
  dsimp only
  rw [husable, hnull, List.flatMap_cons]
  by_cases hempty : arguments.messageLead = some .empty
  · rw [hlead hempty, List.nil_append]
    split_ifs <;> rfl
  · simp only [hempty, false_and, if_false]
    split_ifs <;> rfl

/-- Without sources there are no findings. -/
theorem concludeFor_nil : concludeFor arguments found [] = .ok [] := by
  simp [concludeFor, conclude, usableSources]

/-- The result for some sources is that for each of them, one after another: the first fault counts,
and without one the findings stand together. -/
theorem concludeFor_eq_mapM (sources : List String) :
    concludeFor arguments found sources =
      (sources.mapM fun source => concludeFor arguments found [source]).map List.flatten := by
  induction sources with
  | nil => exact concludeFor_nil arguments found
  | cons source rest ih =>
    rw [List.mapM_cons]
    cases hnull : FileName.hasNull source with
    | true =>
      rw [concludeFor_cons_of_hasNull _ _ hnull, concludeFor_cons_of_hasNull _ _ hnull]
      rfl
    | false =>
      by_cases hempty : arguments.messageLead = some .empty ∧ found source ≠ []
      · rw [concludeFor_cons_of_empty _ _ hnull hempty.1 hempty.2,
          concludeFor_cons_of_empty _ _ hnull hempty.1 hempty.2]
        rfl
      · have hlead : arguments.messageLead = some .empty → found source = [] := by
          intro hlead
          by_contra hfound
          exact hempty ⟨hlead, hfound⟩
        rw [concludeFor_cons _ _ hnull hlead, concludeFor_cons _ _ hnull hlead, concludeFor_nil, ih]
        cases rest.mapM fun source => concludeFor arguments found [source] with
        | error fault => rfl
        | ok lists => simp [Except.map, bind, Except.bind, pure, Except.pure]

/-- Sources with usable names are concluded without a fault if there is a text for messages. -/
theorem concludeFor_of_usable (hlead : arguments.messageLead ≠ some .empty) {sources : List String}
    (hnull : ∀ source ∈ sources, FileName.hasNull source = false) :
    concludeFor arguments found sources = .ok (sources.flatMap found) := by
  induction sources with
  | nil => exact concludeFor_nil arguments found
  | cons source rest ih =>
    obtain ⟨hsource, hrest⟩ := List.forall_mem_cons.mp hnull
    rw [concludeFor_cons _ _ hsource (fun hempty => absurd hempty hlead), ih hrest,
      List.flatMap_cons]
    rfl

end Conclude

/-! ## The joint run and the single runs -/

variable {fs : FileSystem Id} {arguments : Arguments}

/-- The files that are involved in a run for some of the sources are involved in the joint run. -/
theorem Involved.of_subset {sources : List String} (hsources : sources ⊆ arguments.sources)
    {path : String} (h : Involved fs { arguments with sources := sources } path) :
    Involved fs arguments path := by
  cases h with
  | source hsource => exact .source (hsources hsource)
  | reachable hsource hroot hreach => exact .reachable (hsources hsource) hroot hreach
  | project hsettings hfiles hpath => exact .project hsettings hfiles hpath

/-- What the arguments of a run find for some sources. -/
def runFor (fs : FileSystem Id) (arguments : Arguments) (sources : List String) :
    Except RunFault (List Diagnostic) := do
  let settings ← (readSettings fs arguments).run
  let files ← projectFiles fs arguments settings
  concludeFor arguments (sourceFindings fs settings 0x4000000000000000
    (files.map (answeredDocuments (fileAnswer fs .utf8)))) sources

/-- Sources are dealt with one after another. A fault of the settings or of the project is that of
every source. -/
theorem runFor_eq_mapM {sources : List String} (hsome : sources ≠ []) :
    runFor fs arguments sources =
      (sources.mapM fun source => runFor fs arguments [source]).map List.flatten := by
  -- every source has the same fault, so there has to be one
  have hfault : ∀ fault : RunFault, (sources.mapM fun _ =>
      (.error fault : Except RunFault (List Diagnostic))) = .error fault := by
    intro fault
    cases sources with
    | nil => exact absurd rfl hsome
    | cons source rest => rfl
  unfold runFor
  cases (readSettings fs arguments).run with
  | error fault => exact (congrArg (Except.map List.flatten) (hfault fault)).symm
  | ok settings =>
    simp only [bind, Except.bind]
    cases projectFiles fs arguments settings with
    | error fault => exact (congrArg (Except.map List.flatten) (hfault fault)).symm
    | ok files => exact concludeFor_eq_mapM arguments _ sources

section Runs

variable (hnormal : ∀ path, Involved fs arguments path → Path.normalize path = path)
  (log : Notice → Id Unit)
include hnormal

/-- A run for some of the sources finds for each of them what the joint run finds. -/
theorem run_eq_runFor {sources : List String} (hsources : sources ⊆ arguments.sources) :
    (run fs log { arguments with sources := sources }).run = runFor fs arguments sources :=
  run_eq_conclude (fun path hpath => hnormal path (hpath.of_subset hsources)) log

/-- A run for one of the sources finds for it what the joint run finds. -/
theorem run_only {source : String} (hsource : source ∈ arguments.sources) :
    (run fs log (arguments.only source)).run = runFor fs arguments [source] :=
  run_eq_runFor hnormal log (List.cons_subset.mpr ⟨hsource, List.nil_subset _⟩)

/-- The joint run ends in the fault of the first single run that has one. Without faults it finds
what the single runs find, one after another. -/
theorem run_eq_mapM_only (hsome : arguments.sources ≠ []) :
    (run fs log arguments).run =
      (arguments.sources.mapM fun source => (run fs log (arguments.only source)).run).map
        List.flatten := by
  have hjoint : (run fs log arguments).run = runFor fs arguments arguments.sources :=
    run_eq_runFor hnormal log (List.Subset.refl _)
  have hsingle : arguments.sources.map (fun source => (run fs log (arguments.only source)).run) =
      arguments.sources.map fun source => runFor fs arguments [source] :=
    List.map_congr_left fun source hsource => run_only hnormal log hsource
  have hmap : ∀ outcome : String → Except RunFault (List Diagnostic),
      arguments.sources.mapM outcome = (arguments.sources.map outcome).mapM id := by
    intro outcome
    rw [List.mapM_map]
    rfl
  rw [hjoint, runFor_eq_mapM hsome, hmap, hmap, hsingle]

end Runs

/-! ## Arguments without faults -/

/-- Arguments **resolve** when the settings are read, the project is found, there is a text for
messages and all sources have usable names. -/
structure Arguments.Resolve (fs : FileSystem Id) (arguments : Arguments) : Prop where
  /-- The settings are read and the project is found. -/
  project : ∃ settings files, (readSettings fs arguments).run = .ok settings ∧
    projectFiles fs arguments settings = .ok files
  /-- The text in front of messages is not missing. -/
  messageLead : arguments.messageLead ≠ some .empty
  /-- The sources are looked up. -/
  names : ∀ source ∈ arguments.sources, FileName.hasNull source = false

/-- Arguments that resolve end in findings, the same for a source with others and on its own. -/
theorem Arguments.Resolve.exists_findings (h : arguments.Resolve fs) :
    ∃ found : String → List Diagnostic, ∀ sources ⊆ arguments.sources,
      runFor fs arguments sources = .ok (sources.flatMap found) := by
  obtain ⟨settings, files, hsettings, hfiles⟩ := h.project
  refine ⟨sourceFindings fs settings 0x4000000000000000
    (files.map (answeredDocuments (fileAnswer fs .utf8))), fun sources hsources => ?_⟩
  unfold runFor
  rw [hsettings]
  simp only [bind, Except.bind]
  rw [hfiles]
  exact concludeFor_of_usable arguments _ h.messageLead
    fun source hsource => h.names source (hsources hsource)

/-- The exit code tells whether there are errors. -/
theorem exitCode_eq_one_iff {diagnostics : List Diagnostic} :
    exitCode diagnostics = 1 ↔ hasErrors diagnostics = true := by
  unfold exitCode
  split <;> simp_all

/-- There are errors among the findings for some sources when there are errors for one of them. -/
theorem exitCode_flatMap (found : String → List Diagnostic) (sources : List String) :
    exitCode (sources.flatMap found) =
      if ∃ source ∈ sources, exitCode (found source) = 1 then 1 else 0 := by
  have herrors : hasErrors (sources.flatMap found) = true ↔
      ∃ source ∈ sources, exitCode (found source) = 1 := by
    simp only [hasErrors, List.any_flatMap, List.any_eq_true, exitCode_eq_one_iff]
  rw [exitCode]
  exact if_congr herrors rfl rfl

/-- A reply has the exit code for its findings. -/
theorem exitCode_report (json : Bool) (diagnostics : List Diagnostic) :
    (CommandLine.report json diagnostics).exitCode = exitCode diagnostics := by
  cases json <;> rfl

/-- The reply to a run with findings reports them. -/
theorem checkReply_of_run {log : Notice → Id Unit} {diagnostics : List Diagnostic}
    (h : (run fs log arguments).run = .ok diagnostics) :
    (checkReply fs log arguments).run = .ok (CommandLine.report arguments.json diagnostics) := by
  unfold checkReply
  rw [Id.run_bind, h]
  rfl

/-- The reply to a command line that asks for a check is that to the request. -/
theorem reply_of_read {log : Notice → Id Unit} {texts : List String}
    (h : Arguments.read texts = .ok (.check arguments)) :
    reply fs log texts = checkReply fs log arguments := by
  rw [reply, h]

/-- **Checking files together is checking them one by one.** Let some arguments name files that do
not change while they are checked, and let every involved file have one name. Then the run for all
sources ends in the fault of the first source whose own run has one, or else finds what the runs for
the single sources find, in the order of the sources. If the arguments resolve, no run has a fault,
the replies report what is found, and the exit code of the joint reply is one exactly if that of a
single reply is. Command lines with the same options and other sources ask for these runs. -/
theorem checking_together_is_one_by_one (fs : FileSystem Id) (log : Notice → Id Unit)
    (arguments : Arguments) (hsome : arguments.sources ≠ [])
    (hnormal : ∀ path, Involved fs arguments path → Path.normalize path = path) :
    (run fs log arguments).run =
      (arguments.sources.mapM fun source => (run fs log (arguments.only source)).run).map
        List.flatten ∧
    (arguments.Resolve fs → ∃ found : String → List Diagnostic,
      let together := CommandLine.report arguments.json (arguments.sources.flatMap found)
      let alone (source : String) := CommandLine.report arguments.json (found source)
      (run fs log arguments).run = .ok (arguments.sources.flatMap found) ∧
      (checkReply fs log arguments).run = .ok together ∧
      (∀ source ∈ arguments.sources,
        (run fs log (arguments.only source)).run = .ok (found source) ∧
        (checkReply fs log (arguments.only source)).run = .ok (alone source)) ∧
      together.exitCode =
        if ∃ source ∈ arguments.sources, (alone source).exitCode = 1 then 1 else 0) ∧
    ∀ before after, Opens before →
      (∀ source ∈ arguments.sources, Word.read source = .ok (.plain source)) →
      Arguments.read (before ++ arguments.sources ++ after) = .ok (.check arguments) →
        reply fs log (before ++ arguments.sources ++ after) = checkReply fs log arguments ∧
        ∀ source ∈ arguments.sources,
          reply fs log (before ++ source :: after) = checkReply fs log (arguments.only source) := by
  refine ⟨run_eq_mapM_only hnormal log hsome, ?_, ?_⟩
  · intro hresolve
    obtain ⟨found, hfound⟩ := hresolve.exists_findings
    have hjoint : (run fs log arguments).run = .ok (arguments.sources.flatMap found) :=
      (run_eq_runFor hnormal log (List.Subset.refl _)).trans (hfound _ (List.Subset.refl _))
    have hsingle : ∀ source ∈ arguments.sources,
        (run fs log (arguments.only source)).run = .ok (found source) := by
      intro source hsource
      rw [run_only hnormal log hsource,
        hfound [source] (List.cons_subset.mpr ⟨hsource, List.nil_subset _⟩), List.flatMap_singleton]
    refine ⟨found, hjoint, checkReply_of_run hjoint, ?_, ?_⟩
    · exact fun source hsource =>
        ⟨hsingle source hsource, checkReply_of_run (hsingle source hsource)⟩
    · simp only [exitCode_report, exitCode_flatMap]
  · intro before after hbefore hplain hread
    refine ⟨reply_of_read hread, fun source hsource => ?_⟩
    exact reply_of_read (Arguments.read_of_mem_sources hbefore hplain hread hsource)

/-! ## Two files that import each other -/

/-- Two files that import each other, in the working directory. -/
def shelf : FileSystem Id :=
  ({ workingPlace := ["p"], directories := [["p"]],
     files := [
      (["p", "desk.fidl"],
        ⟨utf8Bytes "package a\nimport model \"lamp.fidl\"\ninterface B \x7b\x7d\n", 0⟩),
      (["p", "lamp.fidl"],
        ⟨utf8Bytes "package a.B\nimport model \"desk.fidl\"\ninterface C \x7b\x7d\n", 0⟩)] } :
    FileTree).fileSystem

/-- Both files, one of them twice, with all files below the working directory. -/
def shelfArguments : Arguments :=
  { sources := ["desk.fidl", "lamp.fidl", "desk.fidl"], projectRoot := some (.given "."),
    wholeProject := true, json := true }

/-- The settings are those of the command line. -/
theorem readSettings_shelf :
    (readSettings shelf shelfArguments).run = .ok { wholeProject := true } := by
  decide +kernel

/-- The project has no other files. -/
theorem exists_projectFiles_shelf :
    ∃ files, projectFiles shelf shelfArguments { wholeProject := true } = .ok (some files) ∧
      files ⊆ ["/p/desk.fidl", "/p/lamp.fidl"] := by
  have hfind : (findProject shelf shelfArguments { wholeProject := true }).run =
      .ok (some ".") := by decide +kernel
  have hplace : (shelf.absolute ".").run = "/p" := by decide +kernel
  have hnames : (shelf.filesBelow "/p").run = [["desk.fidl"], ["lamp.fidl"]] := by decide +kernel
  have hdiscovered : filesBelow shelf { wholeProject := true } "." = _ :=
    filesBelow_of_isDirectory shelf _ (by decide +kernel) (by decide +kernel)
  refine ⟨_, by rw [projectFiles, hfind]; exact congrArg (Except.map some) hdiscovered, ?_⟩
  have hbelow : ∀ names ∈ [["desk.fidl"], ["lamp.fidl"]],
      FileName.below "/p" names ∈ ["/p/desk.fidl", "/p/lamp.fidl"] := by decide +kernel
  intro path hpath
  obtain ⟨names, hmem, -, rfl⟩ := mem_arrange_iff.mp hpath
  rw [hplace, hnames] at hmem
  rw [hplace]
  exact hbelow names hmem

/-- Both files have one name. -/
theorem normalize_shelf (path : String) (h : Involved shelf shelfArguments path) :
    Path.normalize path = path := by
  have hnormal : ∀ path ∈ ["/p/desk.fidl", "/p/lamp.fidl"], Path.normalize path = path := by
    decide +kernel
  refine hnormal path (h.mem_of_closed hnormal (by decide +kernel) ?_ (by decide +kernel))
  intro settings project hsettings hproject
  rw [readSettings_shelf] at hsettings
  cases hsettings
  obtain ⟨files, hfiles, hsubset⟩ := exists_projectFiles_shelf
  rw [hproject] at hfiles
  cases hfiles
  exact hsubset

/-- Checked together with the project, both files have the findings that they have alone, and one of
them has them twice. -/
theorem checking_shelf :
    let log : Notice → Id Unit := fun _ => pure ()
    let line (sources : List String) : List String :=
      ["--whole-project", "--project-root=."] ++ sources ++ ["--json"]
    shelfArguments.sources ≠ [] ∧
    (∀ path, Involved shelf shelfArguments path → Path.normalize path = path) ∧
    shelfArguments.Resolve shelf ∧
    ∃ found : String → List Diagnostic,
      (reply shelf log (line ["desk.fidl", "lamp.fidl", "desk.fidl"])).run =
        .ok (CommandLine.report true
          (["desk.fidl", "lamp.fidl", "desk.fidl"].flatMap found)) ∧
      (reply shelf log (line ["desk.fidl"])).run =
        .ok (CommandLine.report true (found "desk.fidl")) ∧
      (reply shelf log (line ["lamp.fidl"])).run =
        .ok (CommandLine.report true (found "lamp.fidl")) := by
  intro log line
  have hsome : shelfArguments.sources ≠ [] := by decide
  obtain ⟨files, hfiles, -⟩ := exists_projectFiles_shelf
  have hresolve : shelfArguments.Resolve shelf :=
    ⟨⟨_, _, readSettings_shelf, hfiles⟩, by decide, by decide +kernel⟩
  have hopens : Opens ["--whole-project", "--project-root=."] :=
    ⟨by decide, [.flag .wholeProject .nothing, .flag .projectRoot (.value ".")],
      { arguments := { projectRoot := some (.given "."), wholeProject := true } },
      by decide +kernel, by decide +kernel, rfl, rfl⟩
  obtain ⟨-, hfound, hlines⟩ := checking_together_is_one_by_one shelf log shelfArguments hsome
    normalize_shelf
  obtain ⟨found, -, htogether, halone, -⟩ := hfound hresolve
  obtain ⟨hjoint, hsingle⟩ := hlines _ ["--json"] hopens (by decide +kernel) (by decide +kernel)
  refine ⟨hsome, normalize_shelf, hresolve, found, ?_, ?_, ?_⟩
  · exact (congrArg Id.run hjoint).trans htogether
  · exact (congrArg Id.run (hsingle "desk.fidl" (by decide))).trans (halone _ (by decide)).2
  · exact (congrArg Id.run (hsingle "lamp.fidl" (by decide))).trans (halone _ (by decide)).2

end FrancaLint
