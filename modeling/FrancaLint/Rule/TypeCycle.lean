import FrancaLint.Diagnostic
import FrancaLint.TypeScope

/-! # Cycles of type definitions

A type that refers to itself, directly or through other types, has no finite layout. Each cycle that
a type of the root belongs to is reported once, at the member that the root declares first. -/

namespace FrancaLint.Rule

/-- The sites whose name does not come again. -/
def lastOfEachName : List Site → List Site
  | [] => []
  | site :: rest =>
      if rest.any (·.name == site.name) then lastOfEachName rest
      else site :: lastOfEachName rest

/-- The names of a cycle from one of them on and back to it. -/
def ring (cycle : List String) (first : String) : List String :=
  cycle.dropWhile (· != first) ++ cycle.takeWhile (· != first) ++ [first]

/-- The finding for a cycle, if one of the sites belongs to it. -/
def typeCycle? (document : Document) (sites : List Site) (cycle : List String) :
    Option Diagnostic :=
  ((lastOfEachName sites).find? fun site => cycle.contains site.name).map fun site =>
    .about .error ("Type definition cycle: " ++ " -> ".intercalate (ring cycle site.name))
      { document := document.sourcePath, element := site.path, feature := some "name" }
      site.decl.span

/-- The findings for all cycles that types of a document belong to. -/
def typeCycles (document : Document) (scope : TypeScope) : List Diagnostic :=
  (scope.cycles (scope.typesOf document)).filterMap (typeCycle? document (scope.typesOf document))

end FrancaLint.Rule
