import FrancaLint.Proofs.Source.Parts
import Mathlib.Data.List.Permutation

/-! # Reading what has been written

The text of a document is read as that document, apart from the spans.

* `readable_draft`: one token of lookahead decides how a file goes on, so that its sentences have
  one value.
* `exists_elements` and `Draft.document_eq_ok`, what is left to do behind the scan.
* `Document.ofSource_source`, the round trip. -/

namespace FrancaLint

open Source Phrase

namespace Source

/-! ## Files -/

/-- A file is read as it is written, apart from places; its versions are numbers. -/
theorem writes_draft (file : String) {document : Document} (h : document.IsWritable) :
    (draft file).Writes document.words fun read =>
      read.package = document.package ∧
        read.imports.map Import.unplaced = document.imports.map Import.unplaced ∧
        (read.definitions.map fun definition => definition.element.map Element.unplaced) =
          document.elements.map fun element => .ok element.unplaced := by
  have himports := Writes.many fun imported hmem =>
    writes_importClause file (h.imports imported hmem)
  have helements : (many (either (typeCollection file) (Source.interface file))).Writes
      (document.elements.flatMap Element.words) fun read =>
        (read.map fun definition => definition.element.map Element.unplaced) =
          document.elements.map fun element => .ok element.unplaced := by
    refine Writes.many fun element hmem => ?_
    rcases List.mem_append.mp hmem with hmem | hmem
    · obtain ⟨collection, hcollection, rfl⟩ := List.mem_map.mp hmem
      exact (writes_typeCollection file (h.typeCollections collection hcollection)).left _
    · obtain ⟨interface, hinterface, rfl⟩ := List.mem_map.mp hmem
      exact (writes_interface file (h.interfaces interface hinterface)).right _
  have hpackage : packageClause.Writes (markWord "package" :: dottedWords document.package)
      fun read => read.2.text = document.package :=
    ((Writes.mark (by decide)).pair (writes_dottedName h.package)).mono fun _ hread => hread.2
  exact ((hpackage.pair (himports.pair helements)).mono fun _ hread => hread).via

/-- A file is read with one token of lookahead. -/
theorem readable_draft (file : String) : Readable (draft file) where
  isDeterministic := by cbv
  isProductive := by cbv
  terminals_subset := by
    have hall : (draft file).terminals.all (fun t => vocabulary.contains t) = true := by cbv
    intro t ht
    simpa using List.all_eq_true.mp hall t ht
  rivals_subset := by
    have hall : ((draft file).rivals (.fixed ".")).all (fun t => behindDottedName.contains t) =
        true := by cbv
    intro t ht
    simpa using List.all_eq_true.mp hall t ht

/-- The text of a document is accepted as a draft of it. -/
theorem scanFile_source {document : Document} (h : document.IsWritable) :
    ∃ draft : Draft, (scanFile document.sourcePath document.source).2 = .accepted draft ∧
      draft.package = document.package ∧
      draft.imports.map Import.unplaced = document.imports.map Import.unplaced ∧
      (draft.definitions.map fun definition => definition.element.map Element.unplaced) =
        document.elements.map fun element => .ok element.unplaced := by
  have hwrites := writes_draft document.sourcePath h
  obtain ⟨draft, hyields, hdraft⟩ :=
    hwrites.yields (placed {} document.words) (map_word_placed {} document.words)
  refine ⟨draft, ?_, hdraft⟩
  rw [scanFile, Document.source, String.toList_ofList]
  exact (readable_draft document.sourcePath).scan_written hwrites.spelled {} {} hyields

/-! ## Elements of a draft -/

/-- Definitions that are turned into elements one by one are turned into a list of elements. -/
theorem exists_elements {definitions : List Definition} {elements : List Element}
    (h : (definitions.map fun definition => definition.element.map Element.unplaced) =
      elements.map fun element => .ok element.unplaced) :
    ∃ read, definitions.mapM Definition.element = .ok read ∧
      read.map Element.unplaced = elements.map Element.unplaced := by
  induction definitions generalizing elements with
  | nil =>
    rw [List.map_nil, eq_comm, List.map_eq_nil_iff] at h
    exact ⟨[], rfl, by rw [h]⟩
  | cons definition definitions ih =>
    rw [List.map_cons, eq_comm] at h
    obtain ⟨element, elements, rfl, helement, helements⟩ := List.map_eq_cons_iff.mp h
    obtain ⟨others, hothers, hmap⟩ := ih helements.symm
    -- a definition with a bad version is no element, whatever its places
    cases hfirst : definition.element with
    | error fault =>
      rw [hfirst] at helement
      cases helement
    | ok first =>
      rw [hfirst] at helement
      have hunplaced : element.unplaced = first.unplaced := Except.ok.inj helement
      refine ⟨first :: others, ?_, by rw [List.map_cons, List.map_cons, hmap, hunplaced]⟩
      rw [List.mapM_cons, hfirst, hothers]
      rfl

/-- The type collections among elements without places. -/
theorem map_unplaced_collectionsOf (elements : List Element) :
    (collectionsOf elements).map TypeCollection.unplaced =
      collectionsOf (elements.map Element.unplaced) := by
  rw [collectionsOf, collectionsOf, List.map_filterMap, List.filterMap_map]
  exact List.filterMap_congr fun element _ => by cases element <;> rfl

/-- The interfaces among elements without places. -/
theorem map_unplaced_interfacesOf (elements : List Element) :
    (interfacesOf elements).map Interface.unplaced =
      interfacesOf (elements.map Element.unplaced) := by
  rw [interfacesOf, interfacesOf, List.map_filterMap, List.filterMap_map]
  exact List.filterMap_congr fun element _ => by cases element <;> rfl

/-- The type collections among the elements of a document. -/
theorem collectionsOf_elements (document : Document) :
    collectionsOf document.elements = document.typeCollections := by
  simp [collectionsOf, Document.elements, List.filterMap_append, List.filterMap_map]

/-- The interfaces among the elements of a document. -/
theorem interfacesOf_elements (document : Document) :
    interfacesOf document.elements = document.interfaces := by
  simp [interfacesOf, Document.elements, List.filterMap_append, List.filterMap_map]

/-- As many type collections are anonymous with their places as without them. -/
theorem length_filter_isEmpty_of_unplaced {read written : List TypeCollection}
    (h : read.map TypeCollection.unplaced = written.map TypeCollection.unplaced) :
    (read.filter (·.name.isEmpty)).length = (written.filter (·.name.isEmpty)).length := by
  have hunplaced : ∀ all : List TypeCollection, (all.filter (·.name.isEmpty)).length =
      ((all.map TypeCollection.unplaced).filter (·.name.isEmpty)).length := by
    intro all
    rw [List.filter_map, List.length_map]
    rfl
  rw [hunplaced, hunplaced written, h]

/-- A draft whose elements have versions, with at most one anonymous type collection, is the draft
of a document. -/
theorem Draft.document_eq_ok {draft : Draft} {elements : List Element} (path : String)
    (digest : Option String) (helements : draft.definitions.mapM Definition.element = .ok elements)
    (hanonymous : ((collectionsOf elements).filter (·.name.isEmpty)).length ≤ 1) :
    draft.document path digest =
      .ok {
        package := draft.package, sourcePath := path, imports := draft.imports,
        typeCollections := collectionsOf elements, interfaces := interfacesOf elements,
        digest := digest, span := draft.span } := by
  simp only [Draft.document, helements, bind, Except.bind]
  split
  · next hfilter =>
    rw [hfilter, List.length_cons, List.length_cons] at hanonymous
    omega
  · rfl

end Source

/-! ## The round trip -/

/-- A document that can be written is read again from its text, apart from the spans. Nothing in a
text tells apart two readings of it, so that the document which is read has no serial number. -/
theorem Document.ofSource_source {document : Document} (h : document.IsWritable) :
    (Document.ofSource document.source document.sourcePath document.digest).map
        Document.unplaced = .ok { document.unplaced with serial := 0 } := by
  obtain ⟨draft, hscan, hpackage, himports, hdefinitions⟩ := scanFile_source h
  obtain ⟨elements, helements, hunplaced⟩ := exists_elements hdefinitions
  have hcollections : (collectionsOf elements).map TypeCollection.unplaced =
      document.typeCollections.map TypeCollection.unplaced := by
    rw [map_unplaced_collectionsOf, hunplaced, ← map_unplaced_collectionsOf,
      collectionsOf_elements]
  have hinterfaces : (interfacesOf elements).map Interface.unplaced =
      document.interfaces.map Interface.unplaced := by
    rw [map_unplaced_interfacesOf, hunplaced, ← map_unplaced_interfacesOf, interfacesOf_elements]
  have hanonymous : ((collectionsOf elements).filter (·.name.isEmpty)).length ≤ 1 := by
    rw [length_filter_isEmpty_of_unplaced hcollections]
    exact h.anonymous
  rw [Document.ofSource, hscan]
  show (draft.document _ _).map Document.unplaced = _
  rw [Draft.document_eq_ok _ _ helements hanonymous]
  show Except.ok _ = Except.ok _
  simp only [Document.unplaced, hpackage, himports, hcollections, hinterfaces]

/-- A file with imports, an anonymous type collection and an interface. -/
def lampFile : Document where
  package := "org.lamps"
  sourcePath := "lamp.fidl"
  imports := [{ uri := "base.fidl" }, { uri := "C:\\old \"types\".fidl", ns := "org.types.*" }]
  typeCollections := [{
    name := "",
    types := [
      { name := "Level",
        body := .enumeration [{ name := "Low", value := "0" }, { name := "High" }] none },
      { name := "Levels", body := .array { derived := "Level" } }] }]
  interfaces := [{
    name := "Lamp",
    version := some (1, -2),
    base := "org.types.Device",
    managed := ["Bulb", "org.types.Socket"],
    types := [{
      name := "Pair",
      body := .struct [{ name := "items", type := { predefined := "UInt8" }, isArray := true }]
        (some { derived := "org.types.Base" }) }],
    attributes := [{ name := "level", type := { derived := "Level" } }],
    methods := [{
      name := "dim",
      inArgs := [{ name := "to_", type := { predefined := "UInt8" } }],
      fireAndForget := true }],
    broadcasts := [{ name := "dimmed" }] }]

/-- The file is read again from its text. -/
theorem ofSource_lampFile :
    lampFile.IsWritable ∧
      (Document.ofSource lampFile.source lampFile.sourcePath lampFile.digest).map
        Document.unplaced = .ok { lampFile.unplaced with serial := 0 } :=
  have hwritable : lampFile.IsWritable := by decide
  ⟨hwritable, Document.ofSource_source hwritable⟩

end FrancaLint
