import FrancaLint.Path
import Mathlib.Data.List.Basic

/-! # Segments of paths

A path is taken apart at its slashes, its segments are followed one by one, and what is left of them
is joined again. A path that starts at the root is folded by walking through directories: into one
for a name, out of one for `..`.

* `IsName`, the segments that lead downwards, and `enterAll`, the walk along a list of segments;
  `fold_of_isRooted`: the fold of a path that starts at the root.
* `IsFolded`, lists of segments in which `..` comes first if at all; `IsFolded.followAll` and
  `IsFolded.followAll_reverse`: what has been followed is folded, and followed again to itself.
* `spelled`, the text of such a list, with `fold_eq_spelled` and `IsFolded.fold_spelled`: the folds
  are these texts, and each of them is its own fold. -/

namespace FrancaLint.Path

/-! ## Where a path starts -/

/-- Only a path with a slash in front starts at the root. -/
theorem isRooted_iff {path : List Char} : isRooted path = true ↔ ∃ more, path = '/' :: more := by
  constructor
  · intro h
    unfold isRooted at h
    split at h
    · exact ⟨_, rfl⟩
    · exact absurd h Bool.false_ne_true
  · rintro ⟨more, rfl⟩
    rfl

/-- A path with another character in front does not start at the root. -/
theorem isRooted_cons_of_ne {c : Char} (h : c ≠ '/') (rest : List Char) :
    isRooted (c :: rest) = false := by
  rw [Bool.eq_false_iff, ne_eq, isRooted_iff]
  rintro ⟨more, heq⟩
  exact h (List.cons.inj heq).1

/-! ## Taking apart and joining -/

/-- The segments of a path are what its slashes split it into. -/
theorem segments_eq_splitOn (path : List Char) : segments path = path.splitOn '/' := by
  induction path with
  | nil => rfl
  | cons c rest ih =>
    rw [segments, List.splitOn_cons_eq_if_modifyHead, ih]
    by_cases hslash : c = '/'
    · rw [if_pos hslash, if_pos (beq_iff_eq.mpr hslash)]
    · rw [if_neg hslash, if_neg (by simpa using hslash)]
      cases hrest : rest.splitOn '/' with
      | nil => exact absurd hrest (List.splitOn_ne_nil _ _)
      | cons first more => rfl

/-- A path with a slash inside has the segments of both sides. -/
theorem segments_append_slash (path rest : List Char) :
    segments (path ++ '/' :: rest) = segments path ++ segments rest := by
  simp only [segments_eq_splitOn, List.splitOn_append_cons_self]

/-- A slash in front of a path is one more segment, an empty one. -/
theorem segments_slash (rest : List Char) : segments ('/' :: rest) = [] :: segments rest :=
  segments_append_slash [] rest

/-- A text without slashes is one segment. -/
theorem segments_of_not_mem {text : List Char} (h : '/' ∉ text) : segments text = [text] := by
  rw [segments_eq_splitOn, List.splitOn_eq_singleton h]

/-- No segment has a slash, and its characters are characters of the path. -/
theorem mem_of_mem_segments {path segment : List Char} (h : segment ∈ segments path) :
    ∀ c ∈ segment, c ≠ '/' ∧ c ∈ path := by
  induction path generalizing segment with
  | nil =>
    rw [segments, List.mem_singleton] at h
    rw [h]
    exact fun c hc => absurd hc List.not_mem_nil
  | cons first rest ih =>
    rw [segments] at h
    split at h
    · rcases List.mem_cons.mp h with rfl | h
      · exact fun c hc => absurd hc List.not_mem_nil
      · exact fun c hc => (ih h c hc).imp_right (List.mem_cons_of_mem _)
    · rename_i hslash
      split at h
      · -- the character joins the first segment, and the others are those of the rest
        rename_i head more hsegments
        rw [hsegments] at ih
        rcases List.mem_cons.mp h with rfl | h
        · rw [List.forall_mem_cons]
          exact ⟨⟨hslash, List.mem_cons_self⟩, fun c hc =>
            (ih List.mem_cons_self c hc).imp_right (List.mem_cons_of_mem _)⟩
        · exact fun c hc =>
            (ih (List.mem_cons_of_mem _ h) c hc).imp_right (List.mem_cons_of_mem _)
      · rw [List.mem_singleton.mp h, List.forall_mem_singleton]
        exact ⟨hslash, List.mem_cons_self⟩

/-- Joining the segments of a path gives the path. -/
theorem join_segments (path : List Char) : join (segments path) = path := by
  rw [join, segments_eq_splitOn, List.intercalate_splitOn]

/-- Segments without slashes are those of the path that joins them. -/
theorem segments_join {path : List (List Char)} (hne : path ≠ [])
    (hslash : ∀ segment ∈ path, '/' ∉ segment) : segments (join path) = path := by
  rw [segments_eq_splitOn, join, List.splitOn_intercalate _ hslash hne]

/-- More than one segment is joined with a slash behind the first one. -/
theorem join_cons {path : List (List Char)} (segment : List Char) (hne : path ≠ []) :
    join (segment :: path) = segment ++ '/' :: join path := by
  rw [join, List.intercalate_cons_of_ne_nil hne, List.append_assoc, List.singleton_append, join]

/-! ## Walking through directories -/

/-- A **name** is a segment that leads to a file or a directory in a directory. -/
structure IsName (segment : List Char) : Prop where
  /-- It is not empty. -/
  ne_nil : segment ≠ []
  /-- It is not `.`. -/
  ne_here : segment ≠ here
  /-- It is not `..`. -/
  ne_above : segment ≠ above
  /-- It has no slash. -/
  no_slash : '/' ∉ segment
  /-- It has no backslash. -/
  no_backslash : '\\' ∉ segment

instance (segment : List Char) : Decidable (IsName segment) :=
  decidable_of_iff
    (segment ≠ [] ∧ segment ≠ here ∧ segment ≠ above ∧ '/' ∉ segment ∧ '\\' ∉ segment)
    ⟨fun ⟨hnil, hhere, habove, hslash, hback⟩ => ⟨hnil, hhere, habove, hslash, hback⟩,
      fun h => ⟨h.ne_nil, h.ne_here, h.ne_above, h.no_slash, h.no_backslash⟩⟩

/-- Walk through one segment from a directory, which is given by the names that lead to it from the
root: stay there, leave it, or go on to a name. There is nothing above the root. -/
def enter (names : List (List Char)) (segment : List Char) : List (List Char) :=
  if segment = [] ∨ segment = here then names
  else if segment = above then names.dropLast
  else names ++ [segment]

/-- Walk through several segments. -/
def enterAll (names path : List (List Char)) : List (List Char) :=
  path.foldl enter names

/-- An empty segment leads nowhere else. -/
@[simp] theorem enter_nil (names : List (List Char)) : enter names [] = names := by
  simp [enter]

/-- A name leads on. -/
theorem enter_of_isName {segment : List Char} (h : IsName segment) (names : List (List Char)) :
    enter names segment = names ++ [segment] := by
  rw [enter, if_neg (not_or.mpr ⟨h.ne_nil, h.ne_here⟩), if_neg h.ne_above]

/-- Names lead on one after the other. -/
theorem enterAll_of_names {path : List (List Char)} (h : ∀ segment ∈ path, IsName segment)
    (names : List (List Char)) : enterAll names path = names ++ path := by
  induction path generalizing names with
  | nil => exact (List.append_nil names).symm
  | cons segment rest ih =>
    rw [List.forall_mem_cons] at h
    rw [enterAll, List.foldl_cons, enter_of_isName h.1, ← enterAll, ih h.2, List.append_assoc,
      List.singleton_append]

/-- An empty segment and `.` are passed over. -/
theorem follow_of_skip {segment : List Char} (h : segment = [] ∨ segment = here) (absolute : Bool)
    (inner : List (List Char)) : follow absolute inner segment = inner :=
  if_pos h

/-- A name is followed downwards. -/
theorem follow_of_name {segment : List Char} (hplain : ¬(segment = [] ∨ segment = here))
    (habove : segment ≠ above) (absolute : Bool) (inner : List (List Char)) :
    follow absolute inner segment = segment :: inner := by
  unfold follow
  rw [if_neg hplain, if_neg habove]

/-- There is nothing above the root, and a step upwards from anywhere else. -/
theorem follow_above_nil (absolute : Bool) :
    follow absolute [] above = if absolute then [] else [above] :=
  rfl

/-- A step upwards takes back the last name, or adds to the steps upwards. -/
theorem follow_above_cons (absolute : Bool) (last : List Char) (rest : List (List Char)) :
    follow absolute (last :: rest) above =
      if last = above then above :: last :: rest else rest :=
  rfl

/-- From the root, following a segment is walking through it; what is followed holds no `..`. -/
theorem reverse_follow {inner : List (List Char)} (h : above ∉ inner) (segment : List Char) :
    (follow true inner segment).reverse = enter inner.reverse segment ∧
      above ∉ follow true inner segment := by
  -- the cases are those of the walk; a list with the innermost segment first grows at its head
  unfold enter
  split
  · rename_i hskip
    rw [follow_of_skip hskip]
    exact ⟨rfl, h⟩
  · rename_i hplain
    split
    · rename_i habove
      rw [habove]
      cases inner with
      | nil => exact ⟨rfl, h⟩
      | cons last rest =>
        rw [List.mem_cons, not_or] at h
        rw [follow_above_cons, if_neg (Ne.symm h.1), List.reverse_cons, List.dropLast_concat]
        exact ⟨rfl, h.2⟩
    · rename_i habove
      rw [follow_of_name hplain habove, List.reverse_cons, List.mem_cons, not_or]
      exact ⟨rfl, Ne.symm habove, h⟩

/-- From the root, following segments is walking through them. -/
theorem reverse_followAll {inner : List (List Char)} (h : above ∉ inner)
    (path : List (List Char)) :
    (followAll true inner path).reverse = enterAll inner.reverse path := by
  induction path generalizing inner with
  | nil => rfl
  | cons segment rest ih =>
    obtain ⟨heq, hnot⟩ := reverse_follow h segment
    rw [enterAll, List.foldl_cons, ← heq, ← enterAll]
    exact ih hnot

/-- A path that starts at the root is folded by walking through its segments. -/
theorem fold_of_isRooted {path : List Char} (h : isRooted path = true) :
    fold path = '/' :: join (enterAll [] (segments path)) := by
  have hwalk : (followAll true [] (segments path)).reverse = enterAll [] (segments path) :=
    reverse_followAll List.not_mem_nil (segments path)
  simp only [fold, h, if_true, hwalk]

/-! ## Folded segments -/

/-- Segments, the innermost one first, are **folded** when they are names, with any number of `..`
in front of them if they do not start at the root. -/
inductive IsFolded (absolute : Bool) : List (List Char) → Prop where
  /-- Only `..`, and nothing at the root. -/
  | climb (steps : Nat) (h : absolute = true → steps = 0) :
      IsFolded absolute (List.replicate steps above)
  /-- A name inside of folded segments. -/
  | name {inner : List (List Char)} {segment : List Char} (h : IsFolded absolute inner)
      (hname : IsName segment) : IsFolded absolute (segment :: inner)

variable {absolute : Bool} {inner : List (List Char)}

/-- Nothing is folded. -/
theorem isFolded_nil : IsFolded absolute [] :=
  .climb 0 fun _ => rfl

/-- Folded segments are neither empty nor `.`, and have no slashes or backslashes. -/
theorem IsFolded.of_mem (h : IsFolded absolute inner) {segment : List Char}
    (hmem : segment ∈ inner) :
    segment ≠ [] ∧ segment ≠ here ∧ '/' ∉ segment ∧ '\\' ∉ segment := by
  induction h with
  | climb steps h =>
    rw [List.eq_of_mem_replicate hmem]
    decide
  | name _ hname ih =>
    rcases List.mem_cons.mp hmem with rfl | hmem
    · exact ⟨hname.ne_nil, hname.ne_here, hname.no_slash, hname.no_backslash⟩
    · exact ih hmem

/-- Following a segment keeps segments folded. -/
theorem IsFolded.follow (h : IsFolded absolute inner) {segment : List Char}
    (hslash : '/' ∉ segment) (hback : '\\' ∉ segment) :
    IsFolded absolute (follow absolute inner segment) := by
  by_cases hskip : segment = [] ∨ segment = here
  · rw [follow_of_skip hskip]
    exact h
  by_cases habove : segment = above
  · rw [habove]
    cases h with
    | climb steps hzero =>
      cases steps with
      | zero =>
        rw [List.replicate_zero, follow_above_nil]
        cases absolute with
        | true => exact isFolded_nil
        | false => exact .climb 1 fun h => absurd h Bool.false_ne_true
      | succ steps =>
        -- one more step upwards, which is not possible at the root
        refine .climb (steps + 2) fun habsolute => ?_
        exact absurd (hzero habsolute) (Nat.succ_ne_zero steps)
    | name hinner hname =>
      rw [follow_above_cons, if_neg hname.ne_above]
      exact hinner
  · rw [follow_of_name hskip habove]
    rw [not_or] at hskip
    exact .name h ⟨hskip.1, hskip.2, habove, hslash, hback⟩

/-- Following several segments keeps segments folded. -/
theorem IsFolded.followAll (h : IsFolded absolute inner) {path : List (List Char)}
    (hslash : ∀ segment ∈ path, '/' ∉ segment) (hback : ∀ segment ∈ path, '\\' ∉ segment) :
    IsFolded absolute (followAll absolute inner path) := by
  induction path generalizing inner with
  | nil => exact h
  | cons segment rest ih =>
    rw [List.forall_mem_cons] at hslash hback
    exact ih (h.follow hslash.1 hback.1) hslash.2 hback.2

/-- Folded segments are followed to themselves. -/
theorem IsFolded.followAll_reverse (h : IsFolded absolute inner) :
    Path.followAll absolute [] inner.reverse = inner := by
  induction h with
  | climb steps hzero =>
    rw [List.reverse_replicate]
    induction steps with
    | zero => rfl
    | succ steps ih =>
      -- away from the root every `..` stays
      have hrelative : absolute = false :=
        Bool.eq_false_iff.mpr fun habsolute => absurd (hzero habsolute) (Nat.succ_ne_zero steps)
      have hprevious := ih fun habsolute => absurd (habsolute.symm.trans hrelative) (by decide)
      rw [List.replicate_succ', Path.followAll, List.foldl_concat, ← Path.followAll, hprevious,
        hrelative]
      cases steps with
      | zero => rfl
      | succ steps =>
        rw [List.replicate_succ, follow_above_cons, if_pos rfl, ← List.replicate_succ,
          ← List.replicate_succ, ← List.replicate_succ']
  | name _ hname ih =>
    rw [List.reverse_cons, Path.followAll, List.foldl_concat, ← Path.followAll, ih,
      follow_of_name (not_or.mpr ⟨hname.ne_nil, hname.ne_here⟩) hname.ne_above]

/-! ## Spelling folded segments -/

/-- The text of a list of segments, the outermost one first. -/
def spelled (absolute : Bool) (path : List (List Char)) : List Char :=
  if absolute then '/' :: join path
  else if path = [] then here
  else join path

/-- Segments that are not empty do not join to nothing. -/
theorem join_eq_nil_iff {path : List (List Char)} (h : ∀ segment ∈ path, segment ≠ []) :
    join path = [] ↔ path = [] := by
  constructor
  · intro hjoin
    cases path with
    | nil => rfl
    | cons segment rest =>
      have hne : segment ≠ [] := h segment List.mem_cons_self
      cases rest with
      | nil =>
        rw [join, List.intercalate_singleton] at hjoin
        exact absurd hjoin hne
      | cons other rest =>
        rw [join_cons segment (List.cons_ne_nil _ _), List.append_eq_nil_iff] at hjoin
        exact absurd hjoin.1 hne
  · rintro rfl
    rfl

/-- What is followed for a path is folded. -/
theorem isFolded_segments {path : List Char} (hback : '\\' ∉ path) :
    IsFolded (isRooted path) (followAll (isRooted path) [] (segments path)) := by
  refine isFolded_nil.followAll ?_ ?_
  · exact fun segment hmem hslash => (mem_of_mem_segments hmem _ hslash).1 rfl
  · exact fun segment hmem hchar => hback (mem_of_mem_segments hmem _ hchar).2

/-- A fold is the text of what is followed. -/
theorem fold_eq_spelled {path : List Char} (hback : '\\' ∉ path) :
    fold path =
      spelled (isRooted path) (followAll (isRooted path) [] (segments path)).reverse := by
  have hempty : (join (followAll (isRooted path) [] (segments path)).reverse).isEmpty = true ↔
      (followAll (isRooted path) [] (segments path)).reverse = [] := by
    rw [List.isEmpty_iff]
    exact join_eq_nil_iff fun segment hmem =>
      ((isFolded_segments hback).of_mem (List.mem_reverse.mp hmem)).1
  simp only [fold, spelled, hempty]

/-- Segments that are not empty and have no slashes join to a path that does not start at the
root. -/
theorem isRooted_join {path : List (List Char)}
    (h : ∀ segment ∈ path, segment ≠ [] ∧ '/' ∉ segment) : isRooted (join path) = false := by
  cases path with
  | nil => rfl
  | cons first rest =>
    obtain ⟨hne, hslash⟩ := h first List.mem_cons_self
    obtain ⟨c, more, rfl⟩ := List.exists_cons_of_ne_nil hne
    rw [List.mem_cons, not_or] at hslash
    cases rest with
    | nil =>
      rw [join, List.intercalate_singleton]
      exact isRooted_cons_of_ne (Ne.symm hslash.1) _
    | cons other rest =>
      rw [join_cons (c :: more) (List.cons_ne_nil other rest)]
      exact isRooted_cons_of_ne (Ne.symm hslash.1) _

/-- The text of folded segments starts with a slash only at the root. -/
theorem IsFolded.isRooted_spelled (h : IsFolded absolute inner) :
    isRooted (spelled absolute inner.reverse) = absolute := by
  cases absolute with
  | true => rfl
  | false =>
    rw [spelled, if_neg Bool.false_ne_true]
    split
    · rfl
    · refine isRooted_join fun segment hmem => ?_
      obtain ⟨hne, -, hslash, -⟩ := h.of_mem (List.mem_reverse.mp hmem)
      exact ⟨hne, hslash⟩

/-- Following the segments of the text of folded segments gives these segments. -/
theorem IsFolded.followAll_segments (h : IsFolded absolute inner) :
    Path.followAll absolute [] (segments (spelled absolute inner.reverse)) = inner := by
  have hslash : ∀ segment ∈ inner.reverse, '/' ∉ segment :=
    fun segment hmem => (h.of_mem (List.mem_reverse.mp hmem)).2.2.1
  cases absolute with
  | true =>
    -- the text begins with a slash, so its first segment is empty and passed over
    have hskip : ∀ path, Path.followAll true [] ([] :: path) = Path.followAll true [] path :=
      fun _ => rfl
    rw [spelled, if_pos rfl, segments_slash, hskip]
    by_cases hnil : inner = []
    · rw [hnil]
      rfl
    · rw [segments_join (List.reverse_ne_nil_iff.mpr hnil) hslash]
      exact h.followAll_reverse
  | false =>
    rw [spelled, if_neg Bool.false_ne_true]
    split
    · rename_i hnil
      rw [List.reverse_eq_nil_iff.mp hnil]
      rfl
    · rename_i hne
      rw [segments_join hne hslash]
      exact h.followAll_reverse

/-- The text of folded segments is its own fold. -/
theorem IsFolded.fold_spelled (h : IsFolded absolute inner) :
    fold (spelled absolute inner.reverse) = spelled absolute inner.reverse := by
  have hempty : (join inner.reverse).isEmpty = true ↔ inner.reverse = [] := by
    rw [List.isEmpty_iff]
    exact join_eq_nil_iff fun segment hmem => (h.of_mem (List.mem_reverse.mp hmem)).1
  unfold fold
  rw [h.isRooted_spelled, h.followAll_segments]
  simp only [hempty, spelled]

end FrancaLint.Path
