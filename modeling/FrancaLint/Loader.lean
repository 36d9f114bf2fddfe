import FrancaLint.Model
import FrancaLint.Notice

/-! # Loaders

A **loader** turns file identifiers into documents. The checker never touches files itself; it is
handed a loader, which works in any monad. Whatever a loader answers becomes a document or a
failure with its reason. -/

namespace FrancaLint

/-- A file that could not be turned into a document. -/
structure LoadFailure where
  /-- The identifier of the file. -/
  path : String
  /-- Why there is no document. -/
  reason : String
  deriving DecidableEq, Repr, Inhabited

/-- A document or the reason why there is none. -/
abbrev LoadResult :=
  Except LoadFailure Document

/-- What a loader answers. -/
inductive LoaderAnswer where
  /-- A document. -/
  | document (document : Document)
  /-- A failure. -/
  | failure (failure : LoadFailure)
  /-- The loader broke off with an error of some kind. -/
  | raised (kind message : String)
  /-- Nothing at all. -/
  | nothing
  /-- Something that is no document. -/
  | junk (kind : String)
  deriving DecidableEq, Repr, Inhabited

/-- The document or failure that an answer stands for. -/
def LoaderAnswer.result (path : String) : LoaderAnswer → LoadResult
  | document d => .ok d
  | failure f => .error f
  | raised kind message => .error ⟨path, kind ++ ": " ++ message⟩
  | nothing => .error ⟨path, "file not found"⟩
  | junk kind => .error ⟨path, "loader returned " ++ kind⟩

/-- A **loader**, and where notices go. -/
structure Loader (m : Type → Type) where
  /-- Ask for the document of an identifier. -/
  ask : String → m LoaderAnswer
  /-- Give notice of an event. -/
  notify : Notice → m Unit

namespace Loader

variable {m : Type → Type} [Monad m]

/-- The document of an identifier, or the reason why there is none. -/
def load (loader : Loader m) (path : String) : m LoadResult := do
  let answer ← loader.ask path
  match answer with
  | .raised _ message => loader.notify (.loaderRaised path message)
  | _ => pure ()
  return answer.result path

/-- The loader of a function that has no effects and gives no notices. -/
def ofFunction (answer : String → LoaderAnswer) : Loader Id where
  ask path := pure (answer path)
  notify _ := pure ()

end Loader

end FrancaLint
