import FrancaLint.Diagnostic
import FrancaLint.TypeScope

/-! # Map keys

The key of a map is a basic type or an enumeration, possibly behind aliases. Cycles and references
that mean nothing have rules of their own, so this rule is silent about them. -/

namespace FrancaLint.Rule

/-- Follow aliases from a declaration to one that cannot be a key, if they lead to one. The number
bounds how many declarations are looked at. There is no answer if the aliases go on. -/
def unsuitableKey? (scope : TypeScope) : Nat → Site → Option (Option Site)
  | 0, _ => none
  | steps + 1, site =>
      match site.decl.body with
      | .enumeration .. => some none
      | .synonym target =>
          if target.isPrimitive then some none
          else
            match scope.resolve target site.document site.element with
            | none => some none
            | some next => unsuitableKey? scope steps next
      | _ => some (some site)

/-- The declaration that makes a reference unsuitable as the key of a map. There is no answer if the
aliases have no end: those that end do so within the bound. -/
def keyTarget? (document : Document) (scope : TypeScope) (element : Element) (decl : TypeDecl)
    (key : TypeRef) : Option (Option Site) :=
  if key.isPrimitive then some none
  else if scope.hasCycle (scope.ownerOf document element decl) then some none
  else
    match scope.resolve key document element with
    | none => some none
    | some first => unsuitableKey? scope (scope.reachFrom (document, element)) first

/-- The finding for a map whose key is unsuitable. -/
def unsuitableKey (document : Document) (element : Element) (decl : TypeDecl) (key : TypeRef)
    (site : Site) : Diagnostic :=
  .about .error "Key type has to be a primitive type"
    { document := document.sourcePath, element := element.pathTo decl.name,
      feature := some "keyType" }
    key.span none
    ["key type '" ++ key.display ++ "' resolves to " ++ site.decl.kind ++ " " ++ site.name]

/-- The findings for a type declaration, if it is a map. There is no answer if the aliases of its
key have no end. -/
def mapKey? (document : Document) (scope : TypeScope) (element : Element) (decl : TypeDecl) :
    Option (List Diagnostic) :=
  match decl.body with
  | .map key _ => (keyTarget? document scope element decl key).map fun target =>
      (target.map (unsuitableKey document element decl key)).toList
  | _ => some []

/-- The findings for all maps of a document. A map without an answer, whose check would not end,
adds none. -/
def mapKeys (document : Document) (scope : TypeScope) : List Diagnostic :=
  document.declarations.flatMap fun (element, decl) =>
    (mapKey? document scope element decl).getD []

end FrancaLint.Rule
