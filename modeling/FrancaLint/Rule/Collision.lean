import FrancaLint.Closure
import FrancaLint.Diagnostic
import FrancaLint.SymbolIndex

/-! # Collisions

No other file may have the qualified name of an element as its package, or a package below it, and
no other file may declare an element of the same qualified name. A collision with a file that the
root imports is an error; one with any other indexed file is a warning. -/

namespace FrancaLint.Rule

/-- A package is the outer one or lies below it. -/
def isNestedPackage (package outer : String) : Bool :=
  package == outer || (outer.toList ++ ['.']).isPrefixOf package.toList

/-- What messages call an element. -/
def elementLabel (element : Element) : String :=
  element.kind.keyword ++ " name"

/-- The finding for a file whose package lies inside an element. -/
def packageCollision (root : Document) (element : Element) (isImported : Bool)
    (file package : String) : Diagnostic :=
  if isImported then
    .about .error
      ("Imported file's package " ++ package ++ " may not start with package " ++
        root.package ++ " + " ++ elementLabel element ++ " " ++ element.name)
      { document := root.sourcePath, element := element.name, feature := some "name" }
      element.span
  else
    .about .warning
      (file ++ ". File's package " ++ package ++ " starts with package " ++
        root.package ++ " + " ++ elementLabel element ++ " " ++ element.name)
      { document := root.sourcePath, element := element.name }
      element.span

/-- The finding for a file that declares an element of the same qualified name. -/
def nameCollision (root : Document) (element : Element) (isImported : Bool) (file : String) :
    Diagnostic :=
  if isImported then
    .about .error
      ("Imported file " ++ file ++
        " has interface or typeCollection with the same name and same package!")
      { document := root.sourcePath, element := element.name, feature := some "name" }
      element.span
  else
    .about .warning
      ("Interface or typeCollection in file " ++ file ++
        " has the same name and same package!")
      { document := root.sourcePath, element := element.name, feature := some "name" }
      element.span

/-- The findings for files whose package lies inside an element. -/
def packageCollisions (root : Document) (element : Element) (index : SymbolIndex)
    (imported : List String) : List Diagnostic :=
  (index.filePackages.filter fun (file, package) =>
      file != Path.normalize root.sourcePath &&
        isNestedPackage package (root.qualifiedName element)).map
    fun (file, package) => packageCollision root element (imported.contains file) file package

/-- The findings for files that declare an element of the same qualified name. -/
def nameCollisions (root : Document) (element : Element) (index : SymbolIndex)
    (imported : List String) : List Diagnostic :=
  ((index.filesDeclaring root.package element.name).filter
      (· != Path.normalize root.sourcePath)).map
    fun file => nameCollision root element (imported.contains file) file

/-- The collisions of an element of the root with indexed files; those of names only on request. -/
def collisions (root : Document) (element : Element) (index : SymbolIndex) (closure : Closure)
    (sameName : Bool) : List Diagnostic :=
  if element.name.isEmpty then []
  else
    packageCollisions root element index closure.transitiveImports ++
      if sameName then nameCollisions root element index closure.transitiveImports else []

end FrancaLint.Rule
