import FrancaLint.Disk.FileLoader
import FrancaLint.Proofs.Loader.Answers
import FrancaLint.Proofs.MemoryStore.Serving

/-! # Files that do not change

While files do not change, the cache of a loader that reads files makes no difference: the loader
answers like a function of the file system.

* `fileAnswer`, what a file stands for; `sourcePath_of_fileAnswer`, whose document it is.
* `FileCache.Agrees`, a cache that holds what the files stand for.
* `fileLoader_answers`: the loader answers like the function. -/

namespace FrancaLint

variable (fs : FileSystem Id) (encoding : Encoding)

/-- What a file stands for, when it is asked for without a cache. -/
def fileAnswer (path : String) : LoaderAnswer :=
  match (fs.status (Path.normalize path)).run with
  | .error .nullCharacter => .raised "ValueError" FileFault.nullCharacter.message
  | .error fault => .failure ⟨Path.normalize path, fault.message⟩
  | .ok _ => .ofResult (loadFile fs encoding (Path.normalize path)).run

/-- A cache **agrees** with the files when it holds what they stand for. -/
def FileCache.Agrees (cache : FileCache) : Prop :=
  ∀ path stamp result, cache.lookup path = some (stamp, result) →
    result = (loadFile fs encoding path).run

variable {fs encoding}

/-- The document of a file has the identifier of the file. -/
theorem sourcePath_of_loadFile {path : String} {document : Document}
    (h : (loadFile fs encoding path).run = .ok document) : document.sourcePath = path := by
  unfold loadFile at h
  rw [Id.run_bind] at h
  split at h
  · cases h
  · rename_i bytes _
    replace h : loadBytes encoding path bytes = .ok document := h
    unfold loadBytes at h
    split at h
    · cases h
    · exact sourcePath_of_loadSource h

/-- The document that an answer stands for has the canonical identifier of the file. -/
theorem sourcePath_of_fileAnswer {path other : String} {document : Document}
    (h : (fileAnswer fs encoding path).result other = .ok document) :
    document.sourcePath = Path.normalize path := by
  unfold fileAnswer at h
  split at h
  · cases h
  · cases h
  · rw [LoaderAnswer.result_ofResult] at h
    exact sourcePath_of_loadFile h

/-! ## The cache -/

/-- The empty cache agrees with all files. -/
theorem FileCache.agrees_nil : Agrees fs encoding [] := by
  intro path stamp result hlookup
  cases hlookup

/-- A cache goes on agreeing with the files when it takes up what one of them stands for. -/
theorem FileCache.Agrees.cons {cache : FileCache} (h : cache.Agrees fs encoding) (path : String)
    (stamp : Int × Nat) : Agrees fs encoding
      ((path, stamp, (loadFile fs encoding path).run) :: MemoryStore.dropKey path cache) := by
  intro other stamp' result hlookup
  rw [List.lookup_cons, MemoryStore.lookup_dropKey] at hlookup
  cases hother : other == path with
  | true =>
    rw [hother, Option.some.injEq, Prod.mk.injEq] at hlookup
    rw [eq_of_beq hother]
    exact hlookup.2.symm
  | false =>
    rw [hother, if_neg (ne_of_beq_false hother)] at hlookup
    exact h other stamp' result hlookup

variable (notify : Notice → Id Unit) (path : String) (stamp : Int × Nat)

/-- Reading a file anew yields what it stands for. -/
theorem yields_loadAnew : Yields (FileCache.Agrees fs encoding)
    (loadAnew fs encoding notify path stamp) (.ofResult (loadFile fs encoding path).run) := by
  have hkept : Yields (FileCache.Agrees fs encoding) (modify fun cache =>
      (path, stamp, (loadFile fs encoding path).run) :: MemoryStore.dropKey path cache) () :=
    .modify fun cache hcache => hcache.cons path stamp
  unfold loadAnew
  refine (Yields.lift _).bind ?_
  cases hfile : (loadFile fs encoding path).run with
  | error failure =>
    rw [hfile] at hkept
    exact hkept.bind (.pure _)
  | ok document =>
    rw [hfile] at hkept
    exact (Yields.lift _).bind (hkept.bind (.pure _))

/-- Loading a file yields what it stands for, whether the cache has it or not. -/
theorem yields_loadCached : Yields (FileCache.Agrees fs encoding)
    (loadCached fs encoding notify path stamp) (.ofResult (loadFile fs encoding path).run) := by
  unfold loadCached
  refine Keeps.get.bind fun cache hcache => ?_
  cases hlookup : cache.lookup path with
  | none => exact yields_loadAnew notify path stamp
  | some entry =>
    obtain ⟨known, result⟩ := entry
    dsimp only
    split
    · rw [hcache path known result hlookup]
      exact Yields.pure _
    · exact yields_loadAnew notify path stamp

/-- The loader answers like the function of the file system. -/
theorem fileLoader_answers : (fileLoader fs encoding notify).Answers
    (FileCache.Agrees fs encoding) (fileAnswer fs encoding) where
  load := by
    intro path
    have hnotify : ∀ notice, Yields (FileCache.Agrees fs encoding)
        ((fileLoader fs encoding notify).notify notice) () := fun notice => .lift (notify notice)
    have hask : Yields (FileCache.Agrees fs encoding) ((fileLoader fs encoding notify).ask path)
        (fileAnswer fs encoding path) := by
      unfold fileLoader fileAnswer
      refine (Yields.lift _).bind ?_
      cases (fs.status (Path.normalize path)).run with
      | error fault => cases fault <;> exact .pure _
      | ok status => exact yields_loadCached notify _ _
    unfold Loader.load
    refine hask.bind ?_
    -- only a loader that broke off gives notice
    split
    · exact (hnotify _).bind (.pure _)
    · exact .pure _
  notify := fun notice => .lift (notify notice)

end FrancaLint
