import FrancaLint.Diagnostic
import FrancaLint.TypeScope

/-! # Dangling references

Every reference of a type declaration or a method argument means a basic type or a declaration that
is in scope. -/

namespace FrancaLint.Rule

/-- The findings for a reference inside an element; `path` is that of the declaration around it. -/
def danglingReference (document : Document) (scope : TypeScope) (element : Element)
    (path : String) (ref : TypeRef) : List Diagnostic :=
  if ref.isPrimitive || (scope.resolve ref document element).isSome then []
  else
    [.about .error ("Unresolved type reference '" ++ ref.display ++ "'")
      { document := document.sourcePath, element := path } ref.span]

/-- The findings for the references of a type declaration. -/
def danglingInType (document : Document) (scope : TypeScope) (site : Site) : List Diagnostic :=
  site.decl.references.flatMap (danglingReference document scope site.element site.path)

/-- The findings for the arguments of a method. -/
def danglingInMethod (document : Document) (scope : TypeScope) (interface_ : Interface)
    (method : Method) : List Diagnostic :=
  (method.inArgs ++ method.outArgs).flatMap fun argument =>
    danglingReference document scope (.interface interface_)
      (interface_.name ++ "." ++ method.name ++ "." ++ argument.name) argument.type

/-- The findings for all references of a document: those of types first, then those of methods. -/
def danglingReferences (document : Document) (scope : TypeScope) : List Diagnostic :=
  (scope.typesOf document).flatMap (danglingInType document scope) ++
    document.interfaces.flatMap fun i => i.methods.flatMap (danglingInMethod document scope i)

end FrancaLint.Rule
