import FrancaLint.Proofs.Source.Literals
import FrancaLint.Proofs.SymbolIndex.Determined
import FrancaLint.Rule.Collision

/-! # Collisions of names and packages

The rule compares texts: a package is inside an element if it is the qualified name of the element
or starts with that name and a dot, and an element has the same name if the qualified names are the
same text. For names without dots both say what is meant: the segments of one name begin with those
of the other, and package and name are the same.

* `isNestedPackage_iff`, prefixes of texts against those of segments, and `qualify_inj`, the only
  way to split a qualified name.
* `InsideElement` and `DeclaresSameName`, the two ways in which a file collides with an element.
* `collisions_report_each_file`: the rule finds each such file once, in order. -/

namespace FrancaLint

open Source

/-! ## Segments of names -/

/-- The segments of two names with a dot between them are those of both. -/
theorem segments_append (outer inner : String) :
    segments (outer ++ "." ++ inner) = segments outer ++ segments inner := by
  have hlist : (outer ++ "." ++ inner).toList = outer.toList ++ '.' :: inner.toList := by
    simp
  rw [segments, hlist, List.splitOn_append_cons_self, List.map_append]
  rfl

/-- A name without dots is its only segment. -/
theorem segments_of_not_mem {name : String} (h : '.' ∉ name.toList) : segments name = [name] := by
  rw [segments, List.splitOn_eq_singleton h, List.map_singleton, String.ofList_toList]

/-- Names with the same segments are the same. -/
theorem segments_inj {name other : String} (h : segments name = segments other) : name = other := by
  rw [← intercalate_segments name, h, intercalate_segments]

/-- The segments of a qualified name are those of the package, if there is one, and the name. -/
theorem segments_qualify (package : String) {name : String} (hname : '.' ∉ name.toList) :
    segments (qualify package name) =
      (if package.isEmpty then [] else segments package) ++ [name] := by
  unfold qualify
  split
  · exact segments_of_not_mem hname
  · rw [segments_append, segments_of_not_mem hname]

/-- A qualified name whose last part has no dots is that of one name in one package. -/
theorem qualify_inj {package other name name' : String} (hname : '.' ∉ name.toList)
    (hname' : '.' ∉ name'.toList) :
    qualify package name = qualify other name' ↔ package = other ∧ name = name' := by
  refine ⟨fun h => ?_, fun ⟨hpackage, heq⟩ => by rw [hpackage, heq]⟩
  have hsegments := congrArg segments h
  rw [segments_qualify package hname, segments_qualify other hname'] at hsegments
  obtain ⟨hpackage, hlast⟩ := List.append_inj' hsegments rfl
  refine ⟨?_, List.singleton_inj.mp hlast⟩
  -- only the empty package has no segments here
  split at hpackage <;> rename_i hempty <;> split at hpackage <;> rename_i hempty'
  · rw [String.isEmpty_iff.mp hempty, String.isEmpty_iff.mp hempty']
  · exact absurd hpackage.symm (segments_ne_nil other)
  · exact absurd hpackage (segments_ne_nil package)
  · exact segments_inj hpackage

/-- A package is nested in an outer one exactly if its segments begin with those of the outer
one. -/
theorem isNestedPackage_iff {package outer : String} :
    Rule.isNestedPackage package outer = true ↔ segments outer <+: segments package := by
  rw [Rule.isNestedPackage, Bool.or_eq_true, beq_iff_eq, List.isPrefixOf_iff_prefix]
  constructor
  · rintro (rfl | ⟨rest, hrest⟩)
    · exact List.prefix_rfl
    · have hpackage : package = outer ++ "." ++ String.ofList rest := by
        rw [← String.toList_inj, ← hrest]
        simp
      rw [hpackage, segments_append]
      exact List.prefix_append _ _
  · rintro ⟨rest, hrest⟩
    cases rest with
    | nil =>
      rw [List.append_nil] at hrest
      exact Or.inl (segments_inj hrest.symm)
    | cons first others =>
      have hpackage : package = outer ++ "." ++ ".".intercalate (first :: others) := by
        rw [← intercalate_segments package, ← hrest,
          String.intercalate_append_of_ne_nil (segments_ne_nil outer) (List.cons_ne_nil _ _),
          intercalate_segments]
      rw [hpackage]
      exact Or.inr ⟨(".".intercalate (first :: others)).toList, by simp⟩

/-! ## Files that collide with an element -/

variable (documents : List Document) (root : Document) (element : Element)

/-- A file with some package lies **inside an element**: it is not the file of the root, it is one
of the documents', and the segments of its package begin with those of the element's qualified
name. -/
def InsideElement (file package : String) : Prop :=
  file ≠ root.identifier ∧
    (∃ document ∈ documents, document.identifier = file ∧ document.package = package) ∧
    segments (root.qualifiedName element) <+: segments package

/-- A file **declares the same name**: it is not the file of the root, and one of its documents
declares an element of that name in the package of the root. -/
def DeclaresSameName (file : String) : Prop :=
  file ≠ root.identifier ∧ ∃ document ∈ documents, document.identifier = file ∧
    document.package = root.package ∧ ∃ other ∈ document.elements, other.name = element.name

/-- The severity of a collision with a file: an error if the root imports the file. -/
def collisionSeverity (closure : Closure) (file : String) : Severity :=
  if closure.transitiveImports.contains file then .error else .warning

variable {documents root element}

/-- The files of an index are strictly ordered by package, then file. -/
theorem pairwise_lt_filePackages (documents : List Document) :
    (SymbolIndex.build documents).filePackages.Pairwise fun a b =>
      toLex (a.2, a.1) < toLex (b.2, b.1) := by
  have hnodup : (SymbolIndex.build documents).filePackages.Nodup :=
    .of_map _ (SymbolIndex.nodup_files documents)
  refine ((SymbolIndex.pairwise_filePackages documents).and hnodup).imp fun {a b} h => ?_
  refine lt_of_le_of_ne ((SymbolIndex.fileNotAfter_iff a b).mp h.1) fun heq => h.2 ?_
  have heq' := congrArg ofLex heq
  simp only [ofLex_toLex, Prod.mk.injEq] at heq'
  exact Prod.ext heq'.2 heq'.1

section Element

variable (hpackage : OnePackage documents)
  (hnames : ∀ document ∈ documents, ∀ other ∈ document.elements, '.' ∉ other.name.toList)
  (hnamed : element.name ≠ "") (hname : '.' ∉ element.name.toList)

include hpackage in
/-- The files that the rule finds to have a nested package are those inside the element. -/
theorem mem_nested_iff {file package : String} :
    (file, package) ∈ (SymbolIndex.build documents).filePackages.filter (fun (file, package) =>
        file != Path.normalize root.sourcePath &&
          Rule.isNestedPackage package (root.qualifiedName element)) ↔
      InsideElement documents root element file package := by
  rw [List.mem_filter, SymbolIndex.mem_filePackages_iff_of_onePackage hpackage, Bool.and_eq_true,
    bne_iff_ne, isNestedPackage_iff]
  exact and_left_comm

include hnames hnamed hname in
/-- The files that the rule finds to declare the qualified name declare the name in the package of
the root. -/
theorem mem_declaring_iff {file : String} :
    file ∈ ((SymbolIndex.build documents).filesDeclaring root.package element.name).filter
        (· != Path.normalize root.sourcePath) ↔
      DeclaresSameName documents root element file := by
  rw [List.mem_filter, SymbolIndex.mem_filesDeclaring_iff, bne_iff_ne, and_comm]
  refine and_congr_right fun _ => exists_congr fun document => ?_
  refine and_congr_right fun hdocument => and_congr_right fun _ => ?_
  constructor
  · rintro ⟨other, hother, -, heq⟩
    obtain ⟨hsame, hsame'⟩ := (qualify_inj (hnames document hdocument other hother) hname).mp heq
    exact ⟨hsame, other, hother, hsame'⟩
  · rintro ⟨hsame, other, hother, hsame'⟩
    refine ⟨other, hother, ?_, ?_⟩
    · rw [hsame']
      simpa using hnamed
    · rw [Document.qualifiedName, hsame, hsame']

end Element

/-- A collision of packages is an error if the root imports the file. -/
theorem severity_packageCollision (root : Document) (element : Element) (isImported : Bool)
    (file package : String) :
    (Rule.packageCollision root element isImported file package).severity =
      if isImported then .error else .warning := by
  cases isImported <;> rfl

/-- So is a collision of names. -/
theorem severity_nameCollision (root : Document) (element : Element) (isImported : Bool)
    (file : String) : (Rule.nameCollision root element isImported file).severity =
      if isImported then .error else .warning := by
  cases isImported <;> rfl

/-- **Each file that collides is found once.** Take documents that give every file one package and
whose element names have no dots, and a named element, without dots as well. The rule finds the
files inside the element, each once, in the order of package and file, and after them, if it is
asked to, those that declare the same name, each once and in order. A finding is an error if the
root imports the file and a warning otherwise. -/
theorem collisions_report_each_file {documents : List Document} (hpackage : OnePackage documents)
    (hnames : ∀ document ∈ documents, ∀ other ∈ document.elements, '.' ∉ other.name.toList)
    (root : Document) {element : Element} (hnamed : element.name ≠ "")
    (hname : '.' ∉ element.name.toList) (closure : Closure) (sameName : Bool) :
    let found :=
      Rule.collisions root element (SymbolIndex.build documents) closure sameName
    ∃ (inside : List (String × String)) (same : List String),
      found = (inside.map fun (file, package) => Rule.packageCollision root element
          (closure.transitiveImports.contains file) file package) ++
        (if sameName then same.map fun file => Rule.nameCollision root element
          (closure.transitiveImports.contains file) file else []) ∧
      inside.Pairwise (fun a b => toLex (a.2, a.1) < toLex (b.2, b.1)) ∧
      (inside.map Prod.fst).Nodup ∧
      (∀ file package, (file, package) ∈ inside ↔
        InsideElement documents root element file package) ∧
      same.Pairwise (· < ·) ∧
      (∀ file, file ∈ same ↔ DeclaresSameName documents root element file) ∧
      found.map (·.severity) = (inside.map Prod.fst ++ if sameName then same else []).map
        (collisionSeverity closure) := by
  intro found
  set inside := (SymbolIndex.build documents).filePackages.filter fun (file, package) =>
    file != Path.normalize root.sourcePath &&
      Rule.isNestedPackage package (root.qualifiedName element)
  set same := ((SymbolIndex.build documents).filesDeclaring root.package element.name).filter
    (· != Path.normalize root.sourcePath)
  have hfound : found = (inside.map fun (file, package) => Rule.packageCollision root element
        (closure.transitiveImports.contains file) file package) ++
      (if sameName then same.map fun file => Rule.nameCollision root element
        (closure.transitiveImports.contains file) file else []) := by
    have hempty : ¬ element.name.isEmpty = true := by simpa using hnamed
    exact if_neg hempty
  refine ⟨inside, same, hfound, (pairwise_lt_filePackages documents).filter _,
    (SymbolIndex.nodup_files documents).sublist (List.filter_sublist.map Prod.fst),
    fun file package => mem_nested_iff hpackage,
    (SymbolIndex.pairwise_filesDeclaring documents root.package element.name).filter _,
    fun file => mem_declaring_iff hnames hnamed hname, ?_⟩
  rw [hfound, List.map_append, List.map_append, List.map_map, List.map_map]
  congr 1
  · exact List.map_congr_left fun pair _ => severity_packageCollision ..
  · split
    · rw [List.map_map]
      exact List.map_congr_left fun file _ => severity_nameCollision ..
    · rfl

/-- A root that declares the interface `p.A` and imports a file. -/
def crowdedRoot : Document :=
  { package := "p", sourcePath := "/r.fidl", imports := [{ uri := "n.fidl" }]
    interfaces := [{ name := "A" }] }

/-- The root with other files: two whose packages lie inside the interface, one that declares a type
collection of the same name, and one whose package only looks alike. -/
def crowdedDocuments : List Document :=
  [crowdedRoot,
    { package := "p.AB", sourcePath := "/t.fidl" },
    { package := "p.A.b", sourcePath := "/n.fidl" },
    { package := "p", sourcePath := "/s.fidl", typeCollections := [{ name := "A" }] },
    { package := "p.A", sourcePath := "/m.fidl" }]

/-- The closure of the root. -/
def crowdedClosure : Closure :=
  { root := "/r.fidl", imports := [("/r.fidl", ["/n.fidl"]), ("/n.fidl", [])] }

/-- Its interface. -/
def crowdedElement : Element :=
  .interface { name := "A" }

/-- The imported file that is inside the interface is an error, and the file with the same name a
warning. The package that only looks alike is no collision. -/
theorem collisions_crowded :
    OnePackage crowdedDocuments ∧
    (∀ document ∈ crowdedDocuments, ∀ other ∈ document.elements, '.' ∉ other.name.toList) ∧
    crowdedElement.name ≠ "" ∧ '.' ∉ crowdedElement.name.toList ∧
    collisionSeverity crowdedClosure "/n.fidl" = .error ∧
    collisionSeverity crowdedClosure "/s.fidl" = .warning ∧
    ∃ (inside : List (String × String)) (same : List String),
      (Rule.collisions crowdedRoot crowdedElement (.build crowdedDocuments) crowdedClosure
        true).map (·.severity) =
          (inside.map Prod.fst ++ same).map (collisionSeverity crowdedClosure) ∧
      ("/n.fidl", "p.A.b") ∈ inside ∧ ("/t.fidl", "p.AB") ∉ inside ∧ "/s.fidl" ∈ same := by
  have hpackage : OnePackage crowdedDocuments := by
    unfold OnePackage
    decide +kernel
  have hnames : ∀ document ∈ crowdedDocuments, ∀ other ∈ document.elements,
      '.' ∉ other.name.toList := by decide +kernel
  have hnamed : crowdedElement.name ≠ "" := by decide
  have hname : '.' ∉ crowdedElement.name.toList := by decide
  have hnested : InsideElement crowdedDocuments crowdedRoot crowdedElement "/n.fidl" "p.A.b" := by
    unfold InsideElement
    decide +kernel
  have halike : ¬ InsideElement crowdedDocuments crowdedRoot crowdedElement "/t.fidl" "p.AB" := by
    unfold InsideElement
    decide +kernel
  have hdeclares : DeclaresSameName crowdedDocuments crowdedRoot crowdedElement "/s.fidl" := by
    unfold DeclaresSameName
    decide +kernel
  obtain ⟨inside, same, -, -, -, hinside, -, hsame, hseverity⟩ :=
    collisions_report_each_file hpackage hnames crowdedRoot hnamed hname crowdedClosure true
  have himports : crowdedClosure.transitiveImports = ["/n.fidl"] := by
    simp [Closure.transitiveImports, Closure.reachableFrom, crowdedClosure, Graph.reach,
      Graph.successors, Graph.without, List.lookup_cons]
  have herror : collisionSeverity crowdedClosure "/n.fidl" = .error := by
    rw [collisionSeverity, himports]
    rfl
  have hwarning : collisionSeverity crowdedClosure "/s.fidl" = .warning := by
    rw [collisionSeverity, himports]
    rfl
  exact ⟨hpackage, hnames, hnamed, hname, herror, hwarning, inside, same, hseverity,
    (hinside _ _).mpr hnested, fun hmem => halike ((hinside _ _).mp hmem),
    (hsame _).mpr hdeclares⟩

end FrancaLint
