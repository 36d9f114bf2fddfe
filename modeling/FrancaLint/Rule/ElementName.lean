import FrancaLint.Diagnostic
import FrancaLint.Model

/-! # Element names

The name of an element contains no dot, because dots separate packages. -/

namespace FrancaLint.Rule

/-- The finding for an element whose name contains a dot. -/
def elementName (document : Document) (element : Element) : List Diagnostic :=
  if '.' ∈ element.name.toList then
    [.about .error "Name may not contain '.'"
      { document := document.sourcePath, element := element.name, feature := some "name" }
      element.span]
  else []

end FrancaLint.Rule
