import FrancaLint.Diagnostic
import FrancaLint.Model

/-! # Argument names

No argument of a method has the name of the method. -/

namespace FrancaLint.Rule

/-- The findings for an argument of a method. -/
def argumentName (document : Document) (interface_ : Interface) (method : Method)
    (argument : TypedName) : List Diagnostic :=
  if argument.name = method.name then
    [.about .error "Parameters cannot share name with method"
      { document := document.sourcePath,
        element := interface_.name ++ "." ++ method.name ++ "." ++ argument.name,
        feature := some "name" }
      argument.span]
  else []

/-- The findings for the arguments of all methods of an interface: those that come back first. -/
def argumentNames (document : Document) (interface_ : Interface) : List Diagnostic :=
  interface_.methods.flatMap fun method =>
    (method.outArgs ++ method.inArgs).flatMap (argumentName document interface_ method)

end FrancaLint.Rule
