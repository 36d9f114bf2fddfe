import FrancaLint.Proofs.Path.Segments

/-! # Prefixes of paths

What is read over before a path is folded: backslashes become slashes, a scheme in front is dropped,
a run of slashes becomes one slash, and a drive in front is dropped.

* `IsScheme` and `IsDrive`, the prefixes, and `HasScheme` and `HasDrive`, the paths they stand in
  front of; `dropScheme_append` and `afterDrive?_eq_some_iff`: dropping them.
* `plain`, a path without backslashes, scheme and repeated slashes, and `IsBareDrive`, one that is
  a drive and nothing else.
* `isRooted_collapseSlashes` and `hasDrive_collapseSlashes`: single slashes change neither where
  a path starts nor, unless it starts with a slash, its drive. -/

namespace FrancaLint.Path

variable {path rest text : List Char}

/-! ## Slashes -/

/-- A text without backslashes stays as it is. -/
theorem slashed_of_not_mem (h : '\\' ∉ text) : slashed text = text := by
  have hsame : ∀ c ∈ text, (if c = '\\' then '/' else c) = c := by
    intro c hc
    refine if_neg ?_
    rintro rfl
    exact h hc
  exact (List.map_congr_left hsame).trans (List.map_id _)

/-- No backslash is left. -/
theorem backslash_not_mem_slashed (path : List Char) : '\\' ∉ slashed path := by
  intro hmem
  obtain ⟨c, -, hc⟩ := List.mem_map.mp hmem
  split at hc
  · exact absurd hc (by decide)
  · rename_i hne
    exact hne hc

/-- A text that has no slashes even then had none before, and no backslashes either. -/
theorem eq_of_slashed_eq {path : List Char} (h : slashed path = text) (hslash : '/' ∉ text) :
    path = text := by
  have hback : '\\' ∉ path := by
    intro hmem
    refine hslash (h ▸ List.mem_map.mpr ⟨'\\', hmem, rfl⟩)
  rw [← h, slashed_of_not_mem hback]

/-! ## Single slashes -/

/-- A second slash is dropped. -/
@[simp] theorem collapseSlashes_slash_slash (rest : List Char) :
    collapseSlashes ('/' :: '/' :: rest) = collapseSlashes ('/' :: rest) := by
  rw [collapseSlashes]

/-- Another character is kept. -/
theorem collapseSlashes_cons_of_ne {c : Char} (h : c ≠ '/') (rest : List Char) :
    collapseSlashes (c :: rest) = c :: collapseSlashes rest := by
  rw [collapseSlashes]
  exact fun _ heq => absurd heq h

/-- A single slash is kept. -/
theorem collapseSlashes_slash (h : isRooted rest = false) :
    collapseSlashes ('/' :: rest) = '/' :: collapseSlashes rest := by
  rw [collapseSlashes]
  rintro more - rfl
  exact Bool.eq_false_iff.mp h rfl

/-- A text without slashes is kept. -/
theorem collapseSlashes_append (h : '/' ∉ text) (rest : List Char) :
    collapseSlashes (text ++ rest) = text ++ collapseSlashes rest := by
  induction text with
  | nil => rfl
  | cons c text ih =>
    rw [List.mem_cons, not_or] at h
    rw [List.cons_append, collapseSlashes_cons_of_ne (Ne.symm h.1), ih h.2, List.cons_append]

/-- The first character stays. -/
theorem head?_collapseSlashes (path : List Char) : (collapseSlashes path).head? = path.head? := by
  induction path using collapseSlashes.induct with
  | case1 rest ih =>
    rw [collapseSlashes_slash_slash, ih]
    rfl
  | case2 c rest hsingle =>
    rw [collapseSlashes]
    · rfl
    · exact hsingle
  | case3 => rfl

/-- A path starts at the root as before. -/
theorem isRooted_collapseSlashes (path : List Char) :
    isRooted (collapseSlashes path) = isRooted path := by
  have hhead : ∀ path, isRooted path = true ↔ path.head? = some '/' := by
    intro path
    rw [isRooted_iff, List.head?_eq_some_iff]
  rw [Bool.eq_iff_iff, hhead, hhead, head?_collapseSlashes]

/-- No other characters come in. -/
theorem collapseSlashes_sublist (path : List Char) : (collapseSlashes path).Sublist path := by
  induction path using collapseSlashes.induct with
  | case1 rest ih =>
    rw [collapseSlashes_slash_slash]
    exact ih.cons _
  | case2 c rest hsingle ih =>
    rw [collapseSlashes]
    · exact ih.cons_cons c
    · exact hsingle
  | case3 => exact List.Sublist.slnil

/-- Only nothing becomes nothing. -/
theorem collapseSlashes_eq_nil_iff : collapseSlashes path = [] ↔ path = [] := by
  rw [← List.head?_eq_none_iff, head?_collapseSlashes, List.head?_eq_none_iff]

/-- A first character other than a slash is the first one of the path. -/
theorem collapseSlashes_eq_cons {c : Char} (hc : c ≠ '/') (h : collapseSlashes path = c :: rest) :
    ∃ more, path = c :: more ∧ collapseSlashes more = rest := by
  have hhead := head?_collapseSlashes path
  rw [h] at hhead
  obtain ⟨more, rfl⟩ := List.head?_eq_some_iff.mp hhead.symm
  rw [collapseSlashes_cons_of_ne hc] at h
  exact ⟨more, rfl, (List.cons.inj h).2⟩

/-- Behind another character, slashes are made single as if nothing were in front. -/
theorem collapseSlashes_append_cons (front : List Char) {c : Char} (hc : c ≠ '/')
    (rest : List Char) :
    collapseSlashes (front ++ c :: rest) =
      collapseSlashes (front ++ [c]) ++ collapseSlashes rest := by
  induction front using collapseSlashes.induct with
  | case1 front ih => exact ih
  | case2 first front hsingle ih =>
    -- the first character is no slash in front of a slash, whatever follows
    have hkeep : ∀ behind more, first = '/' → front ++ c :: behind = '/' :: more → False := by
      intro behind more hfirst heq
      cases front with
      | nil => exact hc (List.cons.inj heq).1
      | cons second front =>
        exact hsingle front hfirst (by rw [(List.cons.inj heq).1])
    rw [List.cons_append, List.cons_append, collapseSlashes, collapseSlashes, ih, List.cons_append]
    · exact hkeep []
    · exact hkeep rest
  | case3 =>
    rw [List.nil_append, List.nil_append, collapseSlashes_cons_of_ne hc,
      collapseSlashes_cons_of_ne hc, collapseSlashes_eq_nil_iff.mpr rfl, List.singleton_append]

/-! ## Schemes -/

/-- A **scheme**: `file:`, in whatever case. -/
def IsScheme (text : List Char) : Prop :=
  ∃ f i l e, text = [f, i, l, e, ':'] ∧ f ∈ ['f', 'F'] ∧ isAnyI i = true ∧ l ∈ ['l', 'L'] ∧
    e ∈ ['e', 'E']

/-- The path **has a scheme** in front. -/
def HasScheme (path : List Char) : Prop :=
  ∃ scheme rest, IsScheme scheme ∧ path = scheme ++ rest

/-- Of all characters of a scheme only the last one is a colon, and none is a slash or a
backslash. -/
theorem IsScheme.spec (h : IsScheme text) :
    text.count ':' = 1 ∧ '/' ∉ text ∧ '\\' ∉ text := by
  obtain ⟨f, i, l, e, rfl, hf, hi, hl, he⟩ := h
  have hi : i ∈ ['i', 'I', 'ı', 'İ'] := by simpa [isAnyI, or_assoc] using hi
  have hkeep : ∀ c ∈ ['f', 'F'] ++ ['i', 'I', 'ı', 'İ'] ++ ['l', 'L'] ++ ['e', 'E'],
      c ≠ ':' ∧ c ≠ '/' ∧ c ≠ '\\' := by simp
  simp only [List.forall_mem_append] at hkeep
  obtain ⟨⟨⟨hkeepF, hkeepI⟩, hkeepL⟩, hkeepE⟩ := hkeep
  obtain ⟨hf, hf', hf''⟩ := hkeepF f hf
  obtain ⟨hi, hi', hi''⟩ := hkeepI i hi
  obtain ⟨hl, hl', hl''⟩ := hkeepL l hl
  obtain ⟨he, he', he''⟩ := hkeepE e he
  simp [hf, hi, hl, he, hf'.symm, hi'.symm, hl'.symm, he'.symm, hf''.symm,
    hi''.symm, hl''.symm, he''.symm]

/-- A scheme is dropped. -/
theorem dropScheme_append (h : IsScheme text) (rest : List Char) :
    dropScheme (text ++ rest) = rest := by
  obtain ⟨f, i, l, e, rfl, hf, hi, hl, he⟩ := h
  have hcase : ((f == 'f' || f == 'F') && isAnyI i && (l == 'l' || l == 'L') &&
      (e == 'e' || e == 'E')) = true := by
    simp only [Bool.and_eq_true, Bool.or_eq_true, beq_iff_eq]
    simp only [List.mem_cons, List.not_mem_nil, or_false] at hf hl he
    exact ⟨⟨⟨hf, hi⟩, hl⟩, he⟩
  exact if_pos hcase

/-- A path without a scheme stays as it is. -/
theorem dropScheme_of_not_hasScheme (h : ¬ HasScheme path) : dropScheme path = path := by
  unfold dropScheme
  split
  · rename_i f i l e rest
    refine if_neg fun hcase => h ⟨[f, i, l, e, ':'], rest, ?_, rfl⟩
    simp only [Bool.and_eq_true, Bool.or_eq_true, beq_iff_eq] at hcase
    obtain ⟨⟨⟨hf, hi⟩, hl⟩, he⟩ := hcase
    exact ⟨f, i, l, e, rfl, by simpa using hf, hi, by simpa using hl, by simpa using he⟩
  · rfl

/-- Nothing else is dropped. -/
theorem dropScheme_sublist (path : List Char) : (dropScheme path).Sublist path := by
  by_cases h : HasScheme path
  · obtain ⟨scheme, rest, hscheme, rfl⟩ := h
    rw [dropScheme_append hscheme]
    exact List.sublist_append_right scheme rest
  · rw [dropScheme_of_not_hasScheme h]

/-- A path that starts at the root has no scheme. -/
theorem not_hasScheme_slash (rest : List Char) : ¬ HasScheme ('/' :: rest) := by
  rintro ⟨scheme, more, hscheme, heq⟩
  have hslash := hscheme.spec.2.1
  obtain ⟨f, i, l, e, rfl, -⟩ := hscheme
  rw [← (List.cons.inj heq).1] at hslash
  exact hslash List.mem_cons_self

/-- It does not matter whether backslashes are turned into slashes before or behind the scheme is
dropped. -/
theorem slashed_dropScheme (path : List Char) :
    slashed (dropScheme path) = dropScheme (slashed path) := by
  by_cases h : HasScheme path
  · obtain ⟨scheme, rest, hscheme, rfl⟩ := h
    have happend : slashed (scheme ++ rest) = scheme ++ slashed rest := by
      rw [slashed, List.map_append, ← slashed, ← slashed, slashed_of_not_mem hscheme.spec.2.2]
    rw [dropScheme_append hscheme, happend, dropScheme_append hscheme]
  · -- a scheme has no slashes, so it cannot come in with them
    have hslashed : ¬ HasScheme (slashed path) := by
      rintro ⟨scheme, rest, hscheme, heq⟩
      obtain ⟨front, back, rfl, hfront, -⟩ := List.map_eq_append_iff.mp heq
      exact h ⟨scheme, back, hscheme, by rw [eq_of_slashed_eq hfront hscheme.spec.2.1]⟩
    rw [dropScheme_of_not_hasScheme h, dropScheme_of_not_hasScheme hslashed]

/-! ## Drives -/

/-- A **drive**: a letter and a colon, possibly behind a slash. -/
def IsDrive (text : List Char) : Prop :=
  ∃ letter : Char, letter.isAlpha = true ∧ (text = [letter, ':'] ∨ text = ['/', letter, ':'])

/-- The path **has a drive** in front: behind it the path ends, possibly with a line feed, or goes
on with a slash. -/
def HasDrive (path : List Char) : Prop :=
  ∃ drive rest, IsDrive drive ∧ path = drive ++ rest ∧
    (rest = [] ∨ rest = ['\n'] ∨ isRooted rest = true)

/-- A letter is neither a slash nor a backslash nor a colon. -/
theorem ne_of_isAlpha {letter : Char} (h : letter.isAlpha = true) :
    letter ≠ '/' ∧ letter ≠ '\\' ∧ letter ≠ ':' := by
  refine ⟨?_, ?_, ?_⟩ <;>
  · rintro rfl
    exact absurd h (by decide)

/-- A drive ends where the path ends, possibly with a line feed, or goes on with a slash. -/
theorem endsDrive_iff :
    endsDrive rest = true ↔ rest = [] ∨ rest = ['\n'] ∨ isRooted rest = true := by
  rw [isRooted_iff]
  constructor
  · intro h
    unfold endsDrive at h
    split at h
    · exact Or.inl rfl
    · exact Or.inr (Or.inl rfl)
    · exact Or.inr (Or.inr ⟨_, rfl⟩)
    · exact absurd h Bool.false_ne_true
  · rintro (rfl | rfl | ⟨more, rfl⟩) <;> rfl

/-- What follows a leading drive without a slash in front. -/
def afterPlainDrive? : List Char → Option (List Char)
  | letter :: ':' :: rest => if letter.isAlpha && endsDrive rest then some rest else none
  | _ => none

/-- The path behind a first slash. -/
def behindSlash : List Char → List Char
  | '/' :: rest => rest
  | path => path

/-- A drive may have a slash in front. -/
theorem afterDrive?_eq (path : List Char) :
    afterDrive? path = afterPlainDrive? (behindSlash path) :=
  rfl

/-- A drive behind a first slash is read as one without it. -/
theorem afterDrive?_slash (rest : List Char) : afterDrive? ('/' :: rest) = afterPlainDrive? rest :=
  rfl

/-- In a path without a slash in front the drive has none either. -/
theorem afterDrive?_of_not_rooted (h : isRooted path = false) :
    afterDrive? path = afterPlainDrive? path := by
  rw [afterDrive?_eq]
  unfold behindSlash
  split
  · exact absurd rfl (Bool.eq_false_iff.mp h)
  · rfl

/-- A drive without a slash in front is a letter and a colon. -/
theorem afterPlainDrive?_eq_some_iff : afterPlainDrive? path = some rest ↔
    ∃ letter : Char, letter.isAlpha = true ∧ path = letter :: ':' :: rest ∧
      endsDrive rest = true := by
  constructor
  · intro h
    unfold afterPlainDrive? at h
    split at h
    · split at h
      · rename_i letter more hdrive
        rw [Bool.and_eq_true] at hdrive
        obtain rfl := Option.some.inj h
        exact ⟨letter, hdrive.1, rfl, hdrive.2⟩
      · exact absurd h (Option.some_ne_none _).symm
    · exact absurd h (Option.some_ne_none _).symm
  · rintro ⟨letter, hletter, rfl, hends⟩
    show (if letter.isAlpha && endsDrive rest then some rest else none) = some rest
    rw [hletter, hends]
    rfl

/-- A drive is read over, and nothing else. -/
theorem afterDrive?_eq_some_iff : afterDrive? path = some rest ↔
    ∃ drive, IsDrive drive ∧ path = drive ++ rest ∧ endsDrive rest = true := by
  constructor
  · intro h
    cases hrooted : isRooted path with
    | true =>
      obtain ⟨more, rfl⟩ := isRooted_iff.mp hrooted
      obtain ⟨letter, hletter, rfl, hends⟩ := afterPlainDrive?_eq_some_iff.mp h
      exact ⟨['/', letter, ':'], ⟨letter, hletter, Or.inr rfl⟩, rfl, hends⟩
    | false =>
      rw [afterDrive?_of_not_rooted hrooted] at h
      obtain ⟨letter, hletter, rfl, hends⟩ := afterPlainDrive?_eq_some_iff.mp h
      exact ⟨[letter, ':'], ⟨letter, hletter, Or.inl rfl⟩, rfl, hends⟩
  · rintro ⟨drive, ⟨letter, hletter, rfl | rfl⟩, rfl, hends⟩
    · have hrooted : isRooted (letter :: ':' :: rest) = false :=
        isRooted_cons_of_ne (ne_of_isAlpha hletter).1 _
      rw [List.cons_append, List.singleton_append, afterDrive?_of_not_rooted hrooted]
      exact afterPlainDrive?_eq_some_iff.mpr ⟨letter, hletter, rfl, hends⟩
    · exact afterPlainDrive?_eq_some_iff.mpr ⟨letter, hletter, rfl, hends⟩

/-- A path has a drive if one can be read over. -/
theorem hasDrive_iff : HasDrive path ↔ ∃ rest, afterDrive? path = some rest := by
  constructor
  · rintro ⟨drive, rest, hdrive, heq, hends⟩
    exact ⟨rest, afterDrive?_eq_some_iff.mpr ⟨drive, hdrive, heq, endsDrive_iff.mpr hends⟩⟩
  · rintro ⟨rest, h⟩
    obtain ⟨drive, hdrive, heq, hends⟩ := afterDrive?_eq_some_iff.mp h
    exact ⟨drive, rest, hdrive, heq, endsDrive_iff.mp hends⟩

/-- A path with a drive has no scheme. -/
theorem HasDrive.not_hasScheme (h : HasDrive path) : ¬ HasScheme path := by
  rintro ⟨scheme, more, hscheme, rfl⟩
  obtain ⟨-, hslash, -⟩ := hscheme.spec
  obtain ⟨f, i, l, e, rfl, hf, hi, -⟩ := hscheme
  obtain ⟨drive, rest, ⟨letter, hletter, rfl | rfl⟩, heq, -⟩ := h
  · -- the second character of a scheme is no colon
    have hcolon : i = ':' := (List.cons.inj (List.cons.inj heq).2).1
    rw [hcolon] at hi
    exact absurd hi (by decide)
  · have hfirst : f = '/' := (List.cons.inj heq).1
    rw [hfirst] at hslash
    exact hslash List.mem_cons_self

/-! ## Drives behind single slashes -/

/-- A drive ends as before. -/
theorem endsDrive_collapseSlashes (rest : List Char) :
    endsDrive (collapseSlashes rest) = endsDrive rest := by
  have hfeed : collapseSlashes rest = ['\n'] ↔ rest = ['\n'] := by
    constructor
    · intro h
      obtain ⟨more, rfl, hmore⟩ := collapseSlashes_eq_cons (by decide) h
      rw [collapseSlashes_eq_nil_iff.mp hmore]
    · rintro rfl
      rw [collapseSlashes_cons_of_ne (by decide), collapseSlashes_eq_nil_iff.mpr rfl]
  rw [Bool.eq_iff_iff, endsDrive_iff, endsDrive_iff, collapseSlashes_eq_nil_iff, hfeed,
    isRooted_collapseSlashes]

/-- Unless a path starts with a slash, it has a drive with single slashes exactly if it had one
before. -/
theorem hasDrive_collapseSlashes (h : isRooted path = false) :
    HasDrive (collapseSlashes path) ↔ HasDrive path := by
  have hrooted : isRooted (collapseSlashes path) = false := by rwa [isRooted_collapseSlashes]
  simp only [hasDrive_iff, afterDrive?_of_not_rooted h, afterDrive?_of_not_rooted hrooted,
    afterPlainDrive?_eq_some_iff]
  constructor
  · rintro ⟨rest, letter, hletter, heq, hends⟩
    obtain ⟨tail, rfl, htail⟩ := collapseSlashes_eq_cons (ne_of_isAlpha hletter).1 heq
    obtain ⟨more, rfl, rfl⟩ := collapseSlashes_eq_cons (by decide) htail
    rw [endsDrive_collapseSlashes] at hends
    exact ⟨more, letter, hletter, rfl, hends⟩
  · rintro ⟨rest, letter, hletter, rfl, hends⟩
    refine ⟨collapseSlashes rest, letter, hletter, ?_, ?_⟩
    · rw [collapseSlashes_cons_of_ne (ne_of_isAlpha hletter).1,
        collapseSlashes_cons_of_ne (by decide)]
    · rwa [endsDrive_collapseSlashes]

/-! ## Plain paths -/

/-- A path without backslashes, scheme and repeated slashes. -/
def plain (path : List Char) : List Char :=
  collapseSlashes (dropScheme (slashed path))

/-- The path is a **bare drive**: nothing follows the drive but possibly a line feed. -/
def IsBareDrive (path : List Char) : Prop :=
  ∃ drive, IsDrive drive ∧ (path = drive ∨ path = drive ++ ['\n'])

end FrancaLint.Path
