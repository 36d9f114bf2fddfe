import FrancaLint.Closure
import FrancaLint.Diagnostic

/-! # Broken imports

An import of the root that failed to load is an error at the import. A failure further away is only
a warning on the root: the file that declares the import has the error. -/

namespace FrancaLint.Rule

/-- The finding for an import that failed. -/
def brokenImport (document : Document) (closure : Closure) (edge : FailedImport) : Diagnostic :=
  if edge.importer = closure.root then
    .about .error
      ("Imported file " ++ edge.target ++ " could not be loaded: " ++ edge.reason)
      { document := document.sourcePath, feature := some "imports", index := some edge.index }
      ((document.imports[edge.index]?.map (·.span)).getD {})
  else
    .about .warning
      ("File " ++ edge.target ++ " imported via " ++ edge.importer ++
        " could not be loaded: " ++ edge.reason)
      { document := document.sourcePath, feature := some "imports" }

/-- The findings for all imports that failed. -/
def brokenImports (document : Document) (closure : Closure) : List Diagnostic :=
  closure.failedImports.map (brokenImport document closure)

end FrancaLint.Rule
