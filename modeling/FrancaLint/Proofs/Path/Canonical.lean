import FrancaLint.Proofs.Path.Roots
import Mathlib.Data.List.Flatten

/-! # Canonical forms of canonical forms

A canonical form is the text of folded segments, and such a text is its own fold. So it is its own
canonical form as well, unless the folding has brought a scheme or a drive to the front: that one is
dropped when the form is taken again, and a colon with it. Taking canonical forms never adds colons.

* `IsTidy`, the texts of folded segments, with `isTidy_normalizeChars`.
* `IsTidy.normalizeChars_eq`: such a text without prefixes is its own canonical form.
* `IsTidy.count_normalizeChars_lt`: the canonical form of one with a prefix has fewer colons.
* `normalize_normalize_iff`: which canonical forms are their own, with `normalize_dottedDrive` for
  one that is not. -/

namespace FrancaLint.Path

variable {path text : List Char}

/-! ## Colons -/

/-- Joining segments adds slashes only. -/
theorem count_join {c : Char} (hslash : c ≠ '/') (path : List (List Char)) :
    (join path).count c = path.flatten.count c := by
  induction path with
  | nil => rfl
  | cons segment rest ih =>
    cases rest with
    | nil => rw [join, List.intercalate_singleton, List.flatten_singleton]
    | cons other rest =>
      rw [join_cons segment (List.cons_ne_nil other rest), List.count_append,
        List.count_cons_of_ne (Ne.symm hslash), ih, ← List.count_append, ← List.flatten_cons]

/-- Spelling segments adds slashes or a dot only. -/
theorem count_spelled {c : Char} (hslash : c ≠ '/') (hdot : c ≠ '.') (absolute : Bool)
    (path : List (List Char)) : (spelled absolute path).count c = path.flatten.count c := by
  unfold spelled
  split
  · rw [List.count_cons_of_ne (Ne.symm hslash), count_join hslash]
  · split
    · rename_i hnil
      rw [hnil, here, List.count_cons_of_ne (Ne.symm hdot)]
      rfl
    · exact count_join hslash path

/-- Following a segment adds at most the segment. -/
theorem follow_sublist (absolute : Bool) (inner : List (List Char)) (segment : List Char) :
    (follow absolute inner segment).Sublist (segment :: inner) := by
  unfold follow
  split
  · exact List.sublist_cons_self segment inner
  · split
    · rename_i habove
      rw [habove]
      split
      · split
        · exact List.nil_sublist _
        · exact List.Sublist.refl _
      · split
        · exact List.Sublist.refl _
        · exact (List.sublist_cons_self _ _).trans (List.sublist_cons_self _ _)
    · exact List.Sublist.refl _

/-- Following segments leaves some of them. -/
theorem reverse_followAll_sublist (absolute : Bool) (inner path : List (List Char)) :
    (followAll absolute inner path).reverse.Sublist (inner.reverse ++ path) := by
  induction path generalizing inner with
  | nil => rw [List.append_nil]; exact List.Sublist.refl _
  | cons segment rest ih =>
    -- what one step leaves is the start of what the other steps go on from
    have hstep := (follow_sublist absolute inner segment).reverse
    rw [List.reverse_cons] at hstep
    have hrest := (ih (follow absolute inner segment)).trans (hstep.append_right rest)
    rwa [List.append_assoc, List.singleton_append] at hrest

/-- A fold has no more colons than its path. -/
theorem count_fold_le (hback : '\\' ∉ path) : (fold path).count ':' ≤ path.count ':' := by
  have hsublist := reverse_followAll_sublist (isRooted path) [] (segments path)
  rw [List.reverse_nil, List.nil_append] at hsublist
  calc (fold path).count ':'
      = (followAll (isRooted path) [] (segments path)).reverse.flatten.count ':' := by
        rw [fold_eq_spelled hback, count_spelled (by decide) (by decide)]
    _ ≤ (segments path).flatten.count ':' := hsublist.flatten.count_le ':'
    _ = path.count ':' := by rw [← count_join (by decide), join_segments]

/-- What is left of a path is a part of its plain path. -/
theorem bare_sublist (path : List Char) : (bare path).Sublist (plain path) := by
  rw [bare_eq]
  cases hafter : afterDrive? (plain path) with
  | none => exact List.Sublist.refl _
  | some rest =>
    obtain ⟨drive, -, heq, -⟩ := afterDrive?_eq_some_iff.mp hafter
    rw [heq]
    exact List.sublist_append_right drive rest

/-- A canonical form is a fold, and what is folded has no backslashes and the colons of what is left
of the path. -/
theorem exists_normalizeChars_eq_fold (path : List Char) :
    ∃ body, normalizeChars path = fold body ∧ '\\' ∉ body ∧
      body.count ':' = (bare path).count ':' := by
  have hback : '\\' ∉ bare path := fun hmem =>
    backslash_not_mem_plain path ((bare_sublist path).subset hmem)
  refine ⟨_, rfl, ?_⟩
  split
  · unfold rooted
    split
    · exact ⟨hback, rfl⟩
    · rw [List.mem_cons, not_or, List.count_cons_of_ne (by decide)]
      exact ⟨⟨by decide, hback⟩, rfl⟩
  · exact ⟨hback, rfl⟩

/-- A path without backslashes, scheme and repeated slashes is plain. -/
theorem plain_eq_self (hback : '\\' ∉ path) (hsingle : collapseSlashes path = path)
    (hscheme : ¬ HasScheme path) : plain path = path := by
  rw [plain, slashed_of_not_mem hback, dropScheme_of_not_hasScheme hscheme, hsingle]

/-- A plain path without a drive is folded as it is. -/
theorem normalizeChars_eq_fold (hback : '\\' ∉ path) (hsingle : collapseSlashes path = path)
    (hscheme : ¬ HasScheme path) (hdrive : ¬ HasDrive path) : normalizeChars path = fold path := by
  have hnone : afterDrive? path = none := by
    rw [Option.eq_none_iff_forall_ne_some]
    exact fun rest heq => hdrive (hasDrive_iff.mpr ⟨rest, heq⟩)
  rw [normalizeChars, slashed_of_not_mem hback, bare_eq, plain_eq_self hback hsingle hscheme, hnone,
    Option.getD_none]
  rfl

/-! ## Texts of folded segments -/

/-- A text is **tidy** when it is that of folded segments. -/
def IsTidy (text : List Char) : Prop :=
  ∃ absolute inner, IsFolded absolute inner ∧ text = spelled absolute inner.reverse

/-- Canonical forms are tidy. -/
theorem isTidy_normalizeChars (path : List Char) : IsTidy (normalizeChars path) := by
  obtain ⟨body, heq, hback, -⟩ := exists_normalizeChars_eq_fold path
  exact ⟨_, _, isFolded_segments hback, heq.trans (fold_eq_spelled hback)⟩

/-- A tidy text has no backslashes. -/
theorem IsTidy.backslash_not_mem (h : IsTidy text) : '\\' ∉ text := by
  obtain ⟨absolute, inner, hfolded, rfl⟩ := h
  rw [← List.count_eq_zero, count_spelled (by decide) (by decide), List.count_eq_zero,
    List.mem_flatten]
  rintro ⟨segment, hsegment, hmem⟩
  exact (hfolded.of_mem (List.mem_reverse.mp hsegment)).2.2.2 hmem

/-- Segments that are not empty and have no slashes are joined with single slashes. -/
theorem collapseSlashes_join {path : List (List Char)}
    (h : ∀ segment ∈ path, segment ≠ [] ∧ '/' ∉ segment) :
    collapseSlashes (join path) = join path := by
  induction path with
  | nil => exact collapseSlashes_eq_nil_iff.mpr rfl
  | cons segment rest ih =>
    rw [List.forall_mem_cons] at h
    obtain ⟨⟨-, hslash⟩, hrest⟩ := h
    cases rest with
    | nil =>
      have hsingle := collapseSlashes_append hslash []
      rw [List.append_nil, collapseSlashes_eq_nil_iff.mpr rfl, List.append_nil] at hsingle
      rw [join, List.intercalate_singleton, hsingle]
    | cons other rest =>
      rw [join_cons segment (List.cons_ne_nil other rest), collapseSlashes_append hslash,
        collapseSlashes_slash (isRooted_join hrest), ih hrest]

/-- A tidy text has single slashes. -/
theorem IsTidy.collapseSlashes_eq (h : IsTidy text) : collapseSlashes text = text := by
  obtain ⟨absolute, inner, hfolded, rfl⟩ := h
  have hjoin : ∀ segment ∈ inner.reverse, segment ≠ [] ∧ '/' ∉ segment := by
    intro segment hmem
    obtain ⟨hne, -, hslash, -⟩ := hfolded.of_mem (List.mem_reverse.mp hmem)
    exact ⟨hne, hslash⟩
  unfold spelled
  split
  · rw [collapseSlashes_slash (isRooted_join hjoin), collapseSlashes_join hjoin]
  · split
    · decide
    · exact collapseSlashes_join hjoin

/-- A tidy text is its own fold. -/
theorem IsTidy.fold_eq (h : IsTidy text) : fold text = text := by
  obtain ⟨absolute, inner, hfolded, rfl⟩ := h
  exact hfolded.fold_spelled

/-- A tidy text without a scheme is plain. -/
theorem IsTidy.plain_eq (h : IsTidy text) (hscheme : ¬ HasScheme text) : plain text = text :=
  plain_eq_self h.backslash_not_mem h.collapseSlashes_eq hscheme

/-! ## Canonical forms of tidy texts -/

/-- A tidy text without prefixes is its own canonical form. -/
theorem IsTidy.normalizeChars_eq (h : IsTidy text) (hscheme : ¬ HasScheme text)
    (hdrive : ¬ HasDrive text) : normalizeChars text = text := by
  rw [normalizeChars_eq_fold h.backslash_not_mem h.collapseSlashes_eq hscheme hdrive, h.fold_eq]

/-- What is left of a tidy text with a prefix has fewer colons. -/
theorem IsTidy.count_bare_lt (h : IsTidy text) (hfront : HasScheme text ∨ HasDrive text) :
    (bare text).count ':' < text.count ':' := by
  rcases hfront with ⟨scheme, rest, hscheme, rfl⟩ | hdrive
  · -- the scheme is dropped and takes its colon with it
    have hplain : plain (scheme ++ rest) = collapseSlashes rest := by
      rw [plain, slashed_of_not_mem h.backslash_not_mem, dropScheme_append hscheme]
    calc (bare (scheme ++ rest)).count ':'
        ≤ (plain (scheme ++ rest)).count ':' := (bare_sublist _).count_le ':'
      _ ≤ rest.count ':' := by rw [hplain]; exact (collapseSlashes_sublist rest).count_le ':'
      _ < (scheme ++ rest).count ':' := by rw [List.count_append, hscheme.spec.1]; omega
  · -- the text is plain already, and the drive is dropped with its colon
    have hplain := h.plain_eq hdrive.not_hasScheme
    obtain ⟨rest, hafter⟩ := hasDrive_iff.mp hdrive
    obtain ⟨drive, hisDrive, heq, -⟩ := afterDrive?_eq_some_iff.mp hafter
    have hcolon : ':' ∈ drive := by
      obtain ⟨letter, -, rfl | rfl⟩ := hisDrive <;> simp
    have hpos : 0 < drive.count ':' := List.count_pos_iff.mpr hcolon
    rw [bare_eq, hplain, hafter, Option.getD_some, heq, List.count_append]
    omega

/-- The canonical form of a tidy text with a prefix has fewer colons. -/
theorem IsTidy.count_normalizeChars_lt (h : IsTidy text)
    (hfront : HasScheme text ∨ HasDrive text) :
    (normalizeChars text).count ':' < text.count ':' := by
  obtain ⟨body, heq, hback, hcount⟩ := exists_normalizeChars_eq_fold text
  calc (normalizeChars text).count ':'
      ≤ body.count ':' := by rw [heq]; exact count_fold_le hback
    _ = (bare text).count ':' := hcount
    _ < text.count ':' := h.count_bare_lt hfront

/-! ## Canonical identifiers -/

/-- **Which canonical forms are their own canonical forms:** those that start neither with a scheme
nor with a drive. -/
theorem normalize_normalize_iff (path : String) :
    normalize (normalize path) = normalize path ↔
      ¬ HasScheme (normalize path).toList ∧ ¬ HasDrive (normalize path).toList := by
  have htidy : IsTidy (normalize path).toList := by
    rw [normalize, String.toList_ofList]
    exact isTidy_normalizeChars path.toList
  have hchars : normalize (normalize path) = normalize path ↔
      normalizeChars (normalize path).toList = (normalize path).toList := by
    rw [← String.toList_inj, normalize.eq_def (normalize path), String.toList_ofList]
  rw [hchars]
  constructor
  · -- dropping a prefix would cost a colon
    intro heq
    by_contra hfront
    rw [not_and_or, not_not, not_not] at hfront
    have hlt := htidy.count_normalizeChars_lt hfront
    rw [heq] at hlt
    exact lt_irrefl _ hlt
  · rintro ⟨hscheme, hdrive⟩
    exact htidy.normalizeChars_eq hscheme hdrive

/-- A drive behind a `.` comes to the front, and is dropped when the canonical form is taken
again. -/
theorem normalize_dottedDrive :
    normalize "/./C:/b.fidl" = "/C:/b.fidl" ∧ normalize "/C:/b.fidl" = "/b.fidl" ∧
      ¬ ∀ path, normalize (normalize path) = normalize path := by
  have hfirst : normalize "/./C:/b.fidl" = "/C:/b.fidl" := by decide +kernel
  have hsecond : normalize "/C:/b.fidl" = "/b.fidl" := by decide +kernel
  refine ⟨hfirst, hsecond, fun h => ?_⟩
  have heq := h "/./C:/b.fidl"
  rw [hfirst, hsecond] at heq
  exact absurd heq (by decide)

end FrancaLint.Path
