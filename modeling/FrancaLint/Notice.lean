/-! # Notices

What the checker reports about its own work while it runs. Main definitions: `Notice`, and
`Notice.line`, the line of a log. -/

namespace FrancaLint

/-- How important a notice is. -/
inductive NoticeLevel where
  /-- A step of the work. -/
  | debug
  /-- Something that did not go as asked. -/
  | info
  /-- Something the user should know. -/
  | warning
  deriving DecidableEq, Repr, Inhabited

/-- The name of a level. -/
def NoticeLevel.label : NoticeLevel → String
  | debug => "DEBUG"
  | info => "INFO"
  | warning => "WARNING"

/-- One event of a run. -/
inductive Notice where
  /-- A file has been read. -/
  | parsed (path package : String)
  /-- A loader broke off. -/
  | loaderRaised (path message : String)
  /-- An import has not been loaded. -/
  | importFailed (target importer reason : String)
  /-- The imports of a file have been found. -/
  | expanded (path : String) (imports : Nat)
  /-- Documents have been indexed. -/
  | indexed (documents names : Nat)
  /-- The index of the project has been built. -/
  | indexRebuilt (entries : Nat)
  /-- The index of the project is still good. -/
  | indexReused
  /-- There is no project, so the closure has been indexed. -/
  | closureIndexed (path : String)
  /-- A document has been validated. -/
  | validated (path : String) (diagnostics : Nat)
  /-- The files of a project have been read. -/
  | projectLoaded (root : String) (documents failures : Nat)
  /-- A file of a project could not be read. -/
  | notIndexed (path reason : String)
  deriving DecidableEq, Repr, Inhabited

namespace Notice

/-- The importance of a notice. -/
def level : Notice → NoticeLevel
  | loaderRaised .. => .info
  | importFailed .. => .info
  | notIndexed .. => .warning
  | _ => .debug

/-- The part of the program that gives a notice. -/
def source : Notice → String
  | parsed .. => "fidlcheck.loader"
  | loaderRaised .. => "fidlcheck.loader"
  | importFailed .. => "fidlcheck.imports"
  | expanded .. => "fidlcheck.imports"
  | indexed .. => "fidlcheck.symbol_index"
  | indexRebuilt .. => "fidlcheck.symbol_index"
  | indexReused => "fidlcheck.symbol_index"
  | closureIndexed .. => "fidlcheck.engine"
  | validated .. => "fidlcheck.engine"
  | projectLoaded .. => "fidlcheck.project"
  | notIndexed .. => "fidlcheck.fidlcheck"

/-- What a notice says. -/
def text : Notice → String
  | parsed path package => "parsed " ++ path ++ " (package " ++ package ++ ")"
  | loaderRaised path message => "loader raised for " ++ path ++ ": " ++ message
  | importFailed target importer reason =>
      "import " ++ target ++ " (from " ++ importer ++ ") failed to load: " ++ reason
  | expanded path imports => "expanded " ++ path ++ ": " ++ toString imports ++ " import(s)"
  | indexed documents names =>
      "indexed " ++ toString documents ++ " document(s), " ++ toString names ++
        " qualified name(s)"
  | indexRebuilt entries => "project index rebuilt (" ++ toString entries ++ " entries)"
  | indexReused => "project index cache hit"
  | closureIndexed path =>
      "whole-project mode without project documents; indexing the closure of " ++ path
  | validated path diagnostics =>
      "validated " ++ path ++ ": " ++ toString diagnostics ++ " diagnostic(s)"
  | projectLoaded root documents failures =>
      "project " ++ root ++ ": " ++ toString documents ++ " document(s), " ++
        toString failures ++ " failure(s)"
  | notIndexed path reason => "project file " ++ path ++ " not indexed: " ++ reason

/-- The line of a log for a notice. -/
def line (notice : Notice) : String :=
  notice.level.label ++ " " ++ notice.source ++ ": " ++ notice.text

end Notice

end FrancaLint
