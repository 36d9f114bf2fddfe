import FrancaLint.Disk.FileSystem
import FrancaLint.MemoryStore

/-! # Documents on disk

A loader that reads files. What a file stands for is kept as long as the time of its last change and
its size are the same. Main definition: `fileLoader`. -/

namespace FrancaLint

/-- What files stood for when they were read last, with the time of change and the size they had. -/
abbrev FileCache :=
  List (String × (Int × Nat) × LoadResult)

/-- The document or failure that the bytes of a file stand for. -/
def loadBytes (encoding : Encoding) (path : String) (bytes : List UInt8) : LoadResult :=
  match encoding.decode bytes with
  | .error fault =>
      .error ⟨path, "cannot decode as " ++ encoding.label ++ ": " ++ fault.reason.message⟩
  | .ok source => loadSource source path (Digest.ofBytes bytes)

variable {m : Type → Type} [Monad m]

/-- The document or failure that a file stands for. -/
def loadFile (fs : FileSystem m) (encoding : Encoding) (path : String) : m LoadResult := do
  match ← fs.read path with
  | .error fault => return .error ⟨path, fault.message⟩
  | .ok bytes => return loadBytes encoding path bytes

/-- The answer for a file that is read anew, and kept in the cache with the status of the file. -/
def loadAnew (fs : FileSystem m) (encoding : Encoding) (notify : Notice → m Unit)
    (path : String) (stamp : Int × Nat) : StateT FileCache m LoaderAnswer := do
  let result ← StateT.lift (loadFile fs encoding path)
  match result with
  | .ok document => StateT.lift (notify (.parsed path document.package))
  | .error _ => pure ()
  modify fun cache => (path, stamp, result) :: MemoryStore.dropKey path cache
  return .ofResult result

/-- The answer for a file with a status, from the cache if the file has not changed. -/
def loadCached (fs : FileSystem m) (encoding : Encoding) (notify : Notice → m Unit)
    (path : String) (stamp : Int × Nat) : StateT FileCache m LoaderAnswer := do
  match (← get).lookup path with
  | some (known, result) =>
      if known = stamp then return .ofResult result
      else loadAnew fs encoding notify path stamp
  | none => loadAnew fs encoding notify path stamp

/-- The files of a file system as a loader. -/
def fileLoader (fs : FileSystem m) (encoding : Encoding) (notify : Notice → m Unit) :
    Loader (StateT FileCache m) where
  ask identifier := do
    let path := Path.normalize identifier
    match ← StateT.lift (fs.status path) with
    | .error .nullCharacter => return .raised "ValueError" FileFault.nullCharacter.message
    | .error fault => return .failure ⟨path, fault.message⟩
    | .ok status => loadCached fs encoding notify path (status.modified, status.size)
  notify notice := StateT.lift (notify notice)

end FrancaLint
