import FrancaLint.Proofs.Path.Prefixes
import FrancaLint.Proofs.Path.Segments
import Mathlib.Data.List.DropRight

/-! # Where paths start

Whether a spelling is absolute is asked of the text behind its scheme; its canonical form is made of
a text with single slashes, without its drive. Both agree on where a path starts, but for one kind
of spelling: a drive with nothing behind it, which takes the slash in front with it when it is
dropped. Only a drive at the very start of a spelling makes up for that.

* `isAbsoluteChars_iff`: a spelling is absolute if its text behind the scheme starts with a slash or
  a drive.
* `withoutDrive`, a path without a drive that has a slash behind it; `normalizeChars_of_isAbsolute`:
  the canonical form of an absolute spelling.
* `LosesRoot`, the spellings of the one kind, with `isRooted_normalizeChars_iff`: the canonical form
  of a spelling starts at the root exactly if the spelling is absolute and not of that kind.
* `isRooted_resolveChars_iff`: a resolved import starts at the root if its directory does, unless
  its URI is of that kind.
* `StartsAtRoot`, the same for identifiers, with `startsAtRoot_directory_resolve`: the directory of
  a resolved import always starts at the root. -/

namespace FrancaLint.Path

variable {path rest uri : List Char}

/-! ## Absolute spellings -/

/-- A spelling is absolute if a slash or a drive stands behind its scheme. -/
theorem isAbsoluteChars_iff : isAbsoluteChars uri = true ↔
    HasDrive (dropScheme (slashed uri)) ∨ isRooted (dropScheme (slashed uri)) = true := by
  rw [isAbsoluteChars, Bool.or_eq_true, Option.isSome_iff_exists, hasDrive_iff]

/-- A plain path starts where the text behind the scheme does. -/
theorem isRooted_plain (uri : List Char) :
    isRooted (plain uri) = isRooted (dropScheme (slashed uri)) :=
  isRooted_collapseSlashes _

/-- A spelling is absolute if its plain path starts with a slash or a drive. -/
theorem isAbsoluteChars_iff_plain : isAbsoluteChars uri = true ↔
    HasDrive (plain uri) ∨ isRooted (plain uri) = true := by
  rw [isAbsoluteChars_iff, isRooted_plain]
  cases hrooted : isRooted (dropScheme (slashed uri)) with
  | true => simp only [or_true]
  | false => rw [plain, hasDrive_collapseSlashes hrooted]

/-! ## Paths without drives -/

/-- Drop a leading drive that has a slash behind it. -/
def withoutDrive : List Char → List Char
  | '/' :: letter :: ':' :: '/' :: rest =>
      if letter.isAlpha then '/' :: rest else '/' :: letter :: ':' :: '/' :: rest
  | letter :: ':' :: '/' :: rest =>
      if letter.isAlpha then '/' :: rest else letter :: ':' :: '/' :: rest
  | path => path

/-- A drive with a slash behind it is dropped. -/
theorem withoutDrive_append {drive : List Char} (h : IsDrive drive) (rest : List Char) :
    withoutDrive (drive ++ '/' :: rest) = '/' :: rest := by
  obtain ⟨letter, hletter, rfl | rfl⟩ := h
  · show withoutDrive (letter :: ':' :: '/' :: rest) = '/' :: rest
    unfold withoutDrive
    split
    · rename_i heq
      exact absurd (List.cons.inj heq).1 (ne_of_isAlpha hletter).1
    · rename_i heq
      cases heq
      exact if_pos hletter
    · rename_i hother
      exact absurd rfl (hother _ _)
  · exact if_pos hletter

/-- A path without such a drive stays as it is. -/
theorem withoutDrive_of_not (h : ∀ drive rest, IsDrive drive → path ≠ drive ++ '/' :: rest) :
    withoutDrive path = path := by
  unfold withoutDrive
  split
  · rename_i letter rest
    exact if_neg fun hletter =>
      h ['/', letter, ':'] rest ⟨letter, hletter, Or.inr rfl⟩ rfl
  · rename_i letter rest
    exact if_neg fun hletter => h [letter, ':'] rest ⟨letter, hletter, Or.inl rfl⟩ rfl
  · rfl

/-- A bare drive is one behind which nothing or a line feed is left. -/
theorem isBareDrive_iff :
    IsBareDrive path ↔ afterDrive? path = some [] ∨ afterDrive? path = some ['\n'] := by
  rw [afterDrive?_eq_some_iff, afterDrive?_eq_some_iff, IsBareDrive]
  constructor
  · rintro ⟨drive, hdrive, rfl | rfl⟩
    · exact Or.inl ⟨_, hdrive, (List.append_nil _).symm, rfl⟩
    · exact Or.inr ⟨drive, hdrive, rfl, rfl⟩
  · rintro (⟨drive, hdrive, rfl, -⟩ | ⟨drive, hdrive, rfl, -⟩)
    · exact ⟨drive, hdrive, Or.inl (List.append_nil _)⟩
    · exact ⟨drive, hdrive, Or.inr rfl⟩

/-- What is left of a path is what follows its drive, if it is not bare, and otherwise the path. -/
theorem afterDrive?_getD_of_not_bare (h : ¬ IsBareDrive path) :
    (afterDrive? path).getD path = withoutDrive path := by
  rw [isBareDrive_iff, not_or] at h
  cases hafter : afterDrive? path with
  | none =>
    rw [Option.getD_none, withoutDrive_of_not]
    rintro drive rest hdrive rfl
    rw [afterDrive?_eq_some_iff.mpr ⟨drive, hdrive, rfl, rfl⟩] at hafter
    cases hafter
  | some rest =>
    rw [hafter] at h
    obtain ⟨drive, hdrive, rfl, hends⟩ := afterDrive?_eq_some_iff.mp hafter
    rcases endsDrive_iff.mp hends with rfl | rfl | hrooted
    · exact absurd rfl h.1
    · exact absurd rfl h.2
    · obtain ⟨more, rfl⟩ := isRooted_iff.mp hrooted
      exact (withoutDrive_append hdrive more).symm

/-- What is left of a path with a drive, if it is not bare, starts at the root; and so it does if
the path does. -/
theorem isRooted_withoutDrive (h : ¬ IsBareDrive path)
    (hpath : HasDrive path ∨ isRooted path = true) : isRooted (withoutDrive path) = true := by
  by_cases hdrive : ∃ drive rest, IsDrive drive ∧ path = drive ++ '/' :: rest
  · obtain ⟨drive, rest, hdrive, rfl⟩ := hdrive
    rw [withoutDrive_append hdrive]
    rfl
  · push Not at hdrive
    rw [withoutDrive_of_not hdrive]
    rcases hpath with ⟨drive, rest, hisDrive, rfl, rfl | rfl | hrooted⟩ | hrooted
    · exact absurd ⟨drive, hisDrive, Or.inl (List.append_nil _)⟩ h
    · exact absurd ⟨drive, hisDrive, Or.inr rfl⟩ h
    · obtain ⟨more, rfl⟩ := isRooted_iff.mp hrooted
      exact absurd rfl (hdrive drive more hisDrive)
    · exact hrooted

/-! ## Canonical forms of absolute spellings -/

/-- What is folded for a spelling is its plain path without the drive. -/
theorem bare_eq (path : List Char) : bare path = (afterDrive? (plain path)).getD (plain path) :=
  rfl

/-- A path that starts at the root is left as it is. -/
theorem rooted_of_isRooted (h : isRooted path = true) : rooted path = path :=
  if_pos h

/-- A path with a slash put in front starts at the root. -/
theorem isRooted_rooted (path : List Char) : isRooted (rooted path) = true := by
  unfold rooted
  split
  · assumption
  · rfl

/-- The canonical form of an absolute spelling, unless it is a bare drive, is the fold of its plain
path without the drive, and starts at the root. -/
theorem normalizeChars_of_isAbsolute (habsolute : isAbsoluteChars uri = true)
    (hbare : ¬ IsBareDrive (plain uri)) :
    normalizeChars uri = fold (withoutDrive (plain uri)) ∧
      isRooted (withoutDrive (plain uri)) = true := by
  have hrooted := isRooted_withoutDrive hbare (isAbsoluteChars_iff_plain.mp habsolute)
  refine ⟨?_, hrooted⟩
  rw [normalizeChars, bare_eq, afterDrive?_getD_of_not_bare hbare, rooted_of_isRooted hrooted,
    ite_self]

/-! ## Spellings that lose their root -/

/-- A spelling **loses its root** when it is a bare drive behind a scheme or repeated slashes, but
does not start with the drive. -/
def LosesRoot (uri : List Char) : Prop :=
  IsBareDrive (plain uri) ∧ ¬ HasDrive (slashed uri)

instance (uri : List Char) : Decidable (LosesRoot uri) :=
  decidable_of_iff ((afterDrive? (plain uri) = some [] ∨ afterDrive? (plain uri) = some ['\n']) ∧
      ¬ (afterDrive? (slashed uri)).isSome = true)
    (by rw [LosesRoot, isBareDrive_iff, hasDrive_iff, Option.isSome_iff_exists])

/-- The canonical form of a spelling that loses its root is `.`, or a line feed. -/
theorem normalizeChars_of_losesRoot (h : LosesRoot uri) :
    normalizeChars uri = here ∨ normalizeChars uri = ['\n'] := by
  obtain ⟨hbare, hdrive⟩ := h
  have hnone : ¬ (afterDrive? (slashed uri)).isSome = true := by
    rwa [Option.isSome_iff_exists, ← hasDrive_iff]
  rw [normalizeChars, if_neg hnone, bare_eq]
  rcases isBareDrive_iff.mp hbare with heq | heq <;> rw [heq, Option.getD_some]
  · exact Or.inl rfl
  · exact Or.inr rfl

/-- A spelling that loses its root is absolute. -/
theorem LosesRoot.isAbsoluteChars (h : LosesRoot uri) : isAbsoluteChars uri = true := by
  obtain ⟨⟨drive, hdrive, hplain⟩, -⟩ := h
  rw [isAbsoluteChars_iff_plain]
  rcases hplain with hplain | hplain
  · exact Or.inl ⟨drive, [], hdrive, hplain.trans (List.append_nil _).symm, Or.inl rfl⟩
  · exact Or.inl ⟨drive, ['\n'], hdrive, hplain, Or.inr (Or.inl rfl)⟩

/-- No backslash is left in a plain path. -/
theorem backslash_not_mem_plain (uri : List Char) : '\\' ∉ plain uri := fun hmem =>
  backslash_not_mem_slashed uri
    ((dropScheme_sublist _).subset ((collapseSlashes_sublist _).subset hmem))

/-- A path starts at the root exactly if its fold does. -/
theorem isRooted_fold (hback : '\\' ∉ path) : isRooted (fold path) = isRooted path := by
  rw [fold_eq_spelled hback, (isFolded_segments hback).isRooted_spelled]

/-- The canonical form of a spelling that is not absolute is the fold of its plain path. -/
theorem normalizeChars_of_relative (h : ¬ isAbsoluteChars uri = true) :
    normalizeChars uri = fold (plain uri) := by
  -- a drive at the very start, where no scheme is, is one behind the scheme as well
  have hslashed : ¬ (afterDrive? (slashed uri)).isSome = true := by
    rw [Option.isSome_iff_exists, ← hasDrive_iff]
    intro hdrive
    refine h (isAbsoluteChars_iff.mpr (Or.inl ?_))
    rwa [dropScheme_of_not_hasScheme hdrive.not_hasScheme]
  have hplain : afterDrive? (plain uri) = none := by
    rw [Option.eq_none_iff_forall_ne_some]
    intro rest heq
    exact h (isAbsoluteChars_iff_plain.mpr (Or.inl (hasDrive_iff.mpr ⟨rest, heq⟩)))
  rw [normalizeChars, if_neg hslashed, bare_eq, hplain, Option.getD_none]

/-- **The canonical form of a spelling starts at the root** exactly if the spelling is absolute and
does not lose its root. -/
theorem isRooted_normalizeChars_iff :
    isRooted (normalizeChars uri) = true ↔ isAbsoluteChars uri = true ∧ ¬ LosesRoot uri := by
  constructor
  · intro hrooted
    constructor
    · by_contra hrelative
      rw [normalizeChars_of_relative hrelative, isRooted_fold (backslash_not_mem_plain uri)]
        at hrooted
      exact hrelative (isAbsoluteChars_iff_plain.mpr (Or.inr hrooted))
    · intro hloses
      rcases normalizeChars_of_losesRoot hloses with heq | heq <;> rw [heq] at hrooted
      · exact absurd hrooted (by decide)
      · exact absurd hrooted (by decide)
  · rintro ⟨habsolute, hkeeps⟩
    by_cases hbare : IsBareDrive (plain uri)
    · -- only a drive at the very start is made up for
      have hdrive : (afterDrive? (slashed uri)).isSome = true := by
        rw [Option.isSome_iff_exists, ← hasDrive_iff]
        by_contra hdrive
        exact hkeeps ⟨hbare, hdrive⟩
      rw [normalizeChars, if_pos hdrive, fold_of_isRooted (isRooted_rooted _)]
      rfl
    · obtain ⟨heq, hrooted⟩ := normalizeChars_of_isAbsolute habsolute hbare
      rw [heq, fold_of_isRooted hrooted]
      rfl

/-! ## Resolved imports -/

/-- Slashes and backslashes are trimmed from the end. -/
theorem trimEnd_eq_rdropWhile (path : List Char) :
    trimEnd path = path.rdropWhile fun c => c == '/' || c == '\\' :=
  rfl

/-- Where a text ends with another character, nothing is trimmed. -/
theorem trimEnd_concat (front : List Char) {c : Char} (hslash : c ≠ '/') (hback : c ≠ '\\') :
    trimEnd (front ++ [c]) = front ++ [c] :=
  List.rdropWhile_concat_neg _ _ _ (by simp [hslash, hback])

/-- What is left of a trimmed text is nothing or ends with another character. -/
theorem trimEnd_eq (path : List Char) : trimEnd path = [] ∨
    ∃ front c, trimEnd path = front ++ [c] ∧ c ≠ '/' ∧ c ≠ '\\' := by
  by_cases hnil : trimEnd path = []
  · exact Or.inl hnil
  · have hlast := List.rdropWhile_last_not (fun c => c == '/' || c == '\\') path hnil
    rw [Bool.or_eq_true, beq_iff_eq, beq_iff_eq, not_or] at hlast
    exact Or.inr ⟨_, _, (List.dropLast_append_getLast hnil).symm, hlast⟩

/-- A text with a slash in front is trimmed to nothing or has the slash in front still. -/
theorem trimEnd_of_isRooted (h : isRooted path = true) :
    trimEnd path = [] ∨ isRooted (trimEnd path) = true := by
  obtain ⟨more, rfl⟩ := isRooted_iff.mp h
  cases htrim : trimEnd ('/' :: more) with
  | nil => exact Or.inl rfl
  | cons c rest =>
    obtain ⟨behind, heq⟩ := List.rdropWhile_prefix (fun c => c == '/' || c == '\\') ('/' :: more)
    rw [← trimEnd_eq_rdropWhile, htrim] at heq
    rw [(List.cons.inj heq).1]
    exact Or.inr rfl

/-- A bare drive has no slash behind its first character. -/
theorem IsBareDrive.slash_not_mem_tail (h : IsBareDrive path) : '/' ∉ path.tail := by
  obtain ⟨drive, ⟨letter, hletter, rfl | rfl⟩, rfl | rfl⟩ := h <;>
  · have hne := (ne_of_isAlpha hletter).1.symm
    simp [hne]

/-- A text that starts with a slash is absolute. -/
theorem isAbsoluteChars_slash (text : List Char) : isAbsoluteChars ('/' :: text) = true := by
  rw [isAbsoluteChars_iff]
  refine Or.inr ?_
  show isRooted (dropScheme ('/' :: slashed text)) = true
  rw [dropScheme_of_not_hasScheme (not_hasScheme_slash _)]
  rfl

/-- The plain path of a text that starts with a slash. -/
theorem plain_slash (text : List Char) :
    plain ('/' :: text) = collapseSlashes ('/' :: slashed text) := by
  rw [plain]
  show collapseSlashes (dropScheme ('/' :: slashed text)) = _
  rw [dropScheme_of_not_hasScheme (not_hasScheme_slash _)]

/-- A relative spelling behind a slash has no drive. -/
theorem not_hasDrive_slash_plain (hrelative : ¬ isAbsoluteChars uri = true) :
    ¬ HasDrive ('/' :: plain uri) := by
  rw [isAbsoluteChars_iff_plain, not_or, Bool.not_eq_true] at hrelative
  obtain ⟨hdrive, hrooted⟩ := hrelative
  rwa [hasDrive_iff, afterDrive?_slash, ← afterDrive?_of_not_rooted hrooted, ← hasDrive_iff]

/-- The plain path of a relative spelling below the root. -/
theorem plain_slash_dropScheme (hrelative : ¬ isAbsoluteChars uri = true) :
    plain ('/' :: dropScheme uri) = '/' :: plain uri := by
  rw [isAbsoluteChars_iff, not_or, Bool.not_eq_true] at hrelative
  rw [plain_slash, slashed_dropScheme, collapseSlashes_slash hrelative.2, plain]

/-- A text with a slash behind another character is no bare drive once its slashes are single. -/
theorem not_isBareDrive_collapseSlashes (start : List Char) {c : Char} (hc : c ≠ '/')
    (rest : List Char) : ¬ IsBareDrive (collapseSlashes (start ++ c :: '/' :: rest)) := by
  intro hbare
  have hne : collapseSlashes (start ++ [c]) ≠ [] := by simp [collapseSlashes_eq_nil_iff]
  obtain ⟨first, more, hfirst⟩ := List.exists_cons_of_ne_nil hne
  have hslash : '/' ∈ collapseSlashes ('/' :: rest) :=
    List.mem_of_mem_head? (head?_collapseSlashes ('/' :: rest) ▸ rfl)
  have htail := hbare.slash_not_mem_tail
  rw [collapseSlashes_append_cons start hc, hfirst] at htail
  exact htail (List.mem_append_right more hslash)

/-- A relative spelling below a directory does not lose its root: below the root it has no drive,
and below any other directory it has a slash behind the name of that. -/
theorem not_losesRoot_append {front : List Char} (h : front = [] ∨ isRooted front = true)
    (hend : front = [] ∨ ∃ start c, front = start ++ [c] ∧ c ≠ '/' ∧ c ≠ '\\')
    (hrelative : ¬ isAbsoluteChars uri = true) :
    isAbsoluteChars (front ++ '/' :: dropScheme uri) = true ∧
      ¬ LosesRoot (front ++ '/' :: dropScheme uri) := by
  rcases hend with rfl | ⟨start, c, hfront, hslash, hback⟩
  · -- a bare drive below the root would be a drive of the spelling
    refine ⟨isAbsoluteChars_slash _, fun hloses => not_hasDrive_slash_plain hrelative ?_⟩
    have hbare := hloses.1
    rw [List.nil_append, plain_slash_dropScheme hrelative, isBareDrive_iff] at hbare
    exact hasDrive_iff.mpr (hbare.elim (fun heq => ⟨_, heq⟩) fun heq => ⟨_, heq⟩)
  · have hne : front ≠ [] := hfront ▸ List.concat_ne_nil c start
    obtain ⟨more, hmore⟩ := isRooted_iff.mp (h.resolve_left hne)
    have habsolute : isAbsoluteChars (front ++ '/' :: dropScheme uri) = true := by
      rw [hmore]
      exact isAbsoluteChars_slash _
    have hplain : plain (front ++ '/' :: dropScheme uri) =
        collapseSlashes (slashed start ++ c :: '/' :: slashed (dropScheme uri)) := by
      have hslashed : slashed (front ++ '/' :: dropScheme uri) =
          slashed start ++ c :: '/' :: slashed (dropScheme uri) := by
        rw [hfront, slashed, List.append_assoc, List.map_append]
        show _ ++ (if c = '\\' then '/' else c) :: _ = _
        rw [if_neg hback]
        rfl
      rw [← hslashed, hmore]
      exact plain_slash _
    refine ⟨habsolute, fun hloses => ?_⟩
    -- the slash behind the directory stays, and a bare drive has none there
    have hbare := hloses.1
    rw [hplain] at hbare
    exact not_isBareDrive_collapseSlashes _ hslash _ hbare

/-- **A resolved import starts at the root** if its base directory does, unless its URI loses the
root. -/
theorem isRooted_resolveChars_iff {base : List Char} (hbase : isRooted base = true) :
    isRooted (resolveChars uri base) = true ↔ ¬ LosesRoot uri := by
  unfold resolveChars
  split
  · rename_i habsolute
    rw [isRooted_normalizeChars_iff, and_iff_right habsolute]
  · rename_i hrelative
    rw [isRooted_normalizeChars_iff, iff_true_right fun hloses => hrelative hloses.isAbsoluteChars]
    exact not_losesRoot_append (trimEnd_of_isRooted hbase) (trimEnd_eq base) hrelative

/-! ## Identifiers -/

/-- An identifier **starts at the root** when it has a slash in front. -/
def StartsAtRoot (path : String) : Prop :=
  isRooted path.toList = true

instance (path : String) : Decidable (StartsAtRoot path) :=
  inferInstanceAs (Decidable (_ = _))

/-- A canonical identifier starts at the root exactly if the spelling is absolute and does not lose
its root. -/
theorem startsAtRoot_normalize_iff {path : String} :
    StartsAtRoot (normalize path) ↔ isAbsolute path = true ∧ ¬ LosesRoot path.toList := by
  rw [StartsAtRoot, normalize, String.toList_ofList]
  exact isRooted_normalizeChars_iff

/-- An import in a directory that starts at the root is resolved to an identifier that does,
exactly if its URI does not lose the root. -/
theorem startsAtRoot_resolve_iff {uri base : String} (hbase : StartsAtRoot base) :
    StartsAtRoot (resolve uri base) ↔ ¬ LosesRoot uri.toList := by
  rw [StartsAtRoot, resolve, String.toList_ofList]
  exact isRooted_resolveChars_iff hbase

/-- The text in front of the last slash is the beginning of a path. -/
theorem beforeLastSlash_prefix (path : List Char) : beforeLastSlash path <+: path := by
  have hdrop : beforeLastSlash path = (path.rdropWhile (· != '/')).dropLast := by
    rw [beforeLastSlash, List.drop_one, List.rdropWhile, ← List.dropLast_reverse]
  rw [hdrop]
  exact (List.dropLast_prefix _).trans (List.rdropWhile_prefix _ _)

/-- There is no text in front of the last slash of a path without slashes. -/
theorem beforeLastSlash_of_not_mem {path : List Char} (h : '/' ∉ path) :
    beforeLastSlash path = [] := by
  have hall : ∀ c ∈ path.reverse, (c != '/') = true := by
    intro c hc
    refine bne_iff_ne.mpr ?_
    rintro rfl
    exact h (List.mem_reverse.mp hc)
  rw [beforeLastSlash, List.dropWhile_eq_nil_iff.mpr hall]
  rfl

/-- The directory of a path that starts at the root, or has no slash, starts at the root. -/
theorem startsAtRoot_directory {path : String} (h : StartsAtRoot path ∨ '/' ∉ path.toList) :
    StartsAtRoot (directory path) := by
  unfold directory
  dsimp only
  split
  · rfl
  · rename_i hne
    rw [List.isEmpty_iff] at hne
    rcases h with hrooted | hnot
    · obtain ⟨more, hmore⟩ := isRooted_iff.mp hrooted
      obtain ⟨behind, heq⟩ := beforeLastSlash_prefix path.toList
      obtain ⟨c, rest, hcons⟩ := List.exists_cons_of_ne_nil hne
      rw [hcons, hmore] at heq
      rw [StartsAtRoot, String.toList_ofList, isRooted_iff, hcons]
      exact ⟨rest, congrArg (· :: rest) (List.cons.inj heq).1⟩
    · exact absurd (beforeLastSlash_of_not_mem hnot) hne

/-- The directory of a file that is imported in a directory that starts at the root starts at the
root as well, whatever the URI. -/
theorem startsAtRoot_directory_resolve {base : String} (hbase : StartsAtRoot base) (uri : String) :
    StartsAtRoot (directory (resolve uri base)) := by
  refine startsAtRoot_directory ?_
  by_cases hloses : LosesRoot uri.toList
  · -- what is left of the URI is one segment
    right
    rw [resolve, String.toList_ofList, resolveChars, if_pos hloses.isAbsoluteChars]
    rcases normalizeChars_of_losesRoot hloses with heq | heq <;> rw [heq] <;> decide
  · exact Or.inl ((startsAtRoot_resolve_iff hbase).mpr hloses)

end FrancaLint.Path
