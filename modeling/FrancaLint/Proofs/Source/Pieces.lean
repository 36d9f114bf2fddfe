import FrancaLint.Proofs.Source.Matches
import FrancaLint.Source.Layout
import Mathlib.Data.List.Infix

/-! # Pieces of layout

What is dropped between words falls into pieces: a blank, a comment, an annotation. A piece is known
by its own characters alone, but for a line comment, which goes on to the end of its line.

* `IsPiece`, the pieces, with `layoutPiece?_append_of_isPiece` and `isPiece_of_layoutPiece?`: they
  are what is found at the start of a text.
* `dropLayout_append_of_isPiece`, layout piece by piece.
* `dropLayout_congr`: layout in front of a word does not depend on what stands behind the start of
  that word.
* `IsGap`, layout that may be put between two words, with `IsGap.dropLayout_append`. -/

namespace FrancaLint.Source

/-! ## Closing marks -/

/-- No end of the closing mark starts another one. -/
def isUnbordered (close : List Char) : Bool :=
  close.tails.all fun ending => ending.isEmpty || ending == close || !ending.isPrefixOf close

/-- An end of a closing mark that starts one is the whole mark. -/
theorem eq_of_isUnbordered {close ending : List Char} (h : isUnbordered close = true)
    (hne : ending ≠ []) (hsuffix : ending <:+ close) (hinit : ending <+: close) :
    ending = close := by
  have hending := List.all_eq_true.mp h ending ((List.mem_tails _ _).mpr hsuffix)
  have hstart : ending.isPrefixOf close = true := List.isPrefixOf_iff_prefix.mpr hinit
  simpa [hne, hstart] using hending

/-- Behind a comment without a closing mark, the mark that closes it is the first one. -/
theorem splitAfter?_append {close comment : List Char} (hunbordered : isUnbordered close = true)
    (hne : close ≠ []) (hnot : ¬ close <:+: comment) (rest : List Char) :
    splitAfter? close (comment ++ (close ++ rest)) = some (comment ++ close, rest) := by
  induction comment with
  | nil =>
    obtain ⟨c, cs, rfl⟩ := List.exists_cons_of_ne_nil hne
    have hprefix : (c :: cs).isPrefixOf (c :: (cs ++ rest)) = true :=
      List.isPrefixOf_iff_prefix.mpr (List.prefix_append (c :: cs) rest)
    rw [List.nil_append, List.cons_append, splitAfter?, if_pos hprefix, List.nil_append,
      ← List.cons_append, List.drop_left]
  | cons c comment ih =>
    rw [List.infix_cons_iff, not_or] at hnot
    have hfirst : ¬ close <+: c :: comment ++ (close ++ rest) := by
      intro hprefix
      rcases List.prefix_or_prefix_of_prefix hprefix (List.prefix_append _ _) with
        hinside | ⟨ending, hclose⟩
      · exact hnot.1 hinside
      · -- the mark would reach into the one that closes the comment
        have hending : ending <+: close ++ rest := by
          rw [← hclose, List.append_assoc] at hprefix
          rw [← hclose, List.append_assoc]
          exact (List.prefix_append_right_inj _).mp hprefix
        have hlength := congrArg List.length hclose
        rw [List.length_append, List.length_cons] at hlength
        by_cases hnil : ending = []
        · rw [hnil, List.append_nil] at hclose
          exact hnot.1 (hclose ▸ List.prefix_rfl)
        · have hpart : ending <+: close :=
            List.prefix_of_prefix_length_le hending (List.prefix_append close rest) (by omega)
          rw [eq_of_isUnbordered hunbordered hnil ⟨_, hclose⟩ hpart] at hlength
          omega
    rw [List.cons_append, splitAfter?, if_neg, ih hnot.2]
    · rfl
    · rwa [List.isPrefixOf_iff_prefix]

/-- What is split off is a comment without a closing mark and then the mark. -/
theorem exists_of_splitAfter? {close text inside after : List Char}
    (h : splitAfter? close text = some (inside, after)) (hne : close ≠ []) :
    ∃ comment, inside = comment ++ close ∧ ¬ close <:+: comment := by
  induction text generalizing inside with
  | nil => cases h
  | cons c rest ih =>
    rw [splitAfter?] at h
    by_cases hprefix : close.isPrefixOf (c :: rest) = true
    · rw [if_pos hprefix, Option.some.injEq, Prod.mk.injEq] at h
      refine ⟨[], h.1.symm, ?_⟩
      rwa [List.infix_nil]
    · rw [if_neg hprefix] at h
      obtain ⟨⟨first, second⟩, hsplit, heq⟩ := Option.map_eq_some_iff.mp h
      obtain ⟨rfl, rfl⟩ := Prod.mk.inj heq
      obtain ⟨comment, rfl, hnot⟩ := ih hsplit
      refine ⟨c :: comment, rfl, ?_⟩
      rw [List.infix_cons_iff, not_or]
      refine ⟨fun hfirst => hprefix ?_, hnot⟩
      have htext := append_of_splitAfter? hsplit
      rw [List.isPrefixOf_iff_prefix, ← htext]
      have hwhole : c :: comment <+: c :: (comment ++ close ++ second) := by
        rw [List.append_assoc]
        exact List.prefix_append (c :: comment) (close ++ second)
      exact hfirst.trans hwhole

/-! ## Pieces -/

/-- A **piece** of layout, in front of the rest of a text. -/
inductive IsPiece : List Char → List Char → Prop where
  /-- A blank. -/
  | blank {c : Char} {rest : List Char} (hblank : isBlank c = true) : IsPiece [c] rest
  /-- A comment up to the end of the line. -/
  | line {comment rest : List Char} (hcomment : '\n' ∉ comment)
      (hrest : ∀ c ∈ rest.head?, c = '\n') : IsPiece ('/' :: '/' :: comment) rest
  /-- A comment between marks. -/
  | block {comment rest : List Char} (hcomment : ¬ ['*', '/'] <:+: comment) :
      IsPiece ('/' :: '*' :: (comment ++ ['*', '/'])) rest
  /-- An annotation. -/
  | annotated {comment rest : List Char} (hcomment : ¬ ['*', '*', '>'] <:+: comment) :
      IsPiece ('<' :: '*' :: '*' :: (comment ++ ['*', '*', '>'])) rest

/-- A piece is a piece in front of everything that starts alike. -/
theorem IsPiece.of_head? {piece rest rest' : List Char} (h : IsPiece piece rest)
    (hhead : rest'.head? = rest.head?) : IsPiece piece rest' := by
  cases h with
  | blank hblank => exact .blank hblank
  | line hcomment hrest => exact .line hcomment (hhead ▸ hrest)
  | block hcomment => exact .block hcomment
  | annotated hcomment => exact .annotated hcomment

/-- No blank starts a comment or an annotation. -/
theorem layoutPiece?_blank {c : Char} (h : isBlank c = true) (rest : List Char) :
    layoutPiece? (c :: rest) = some ([c], rest) := by
  simp only [isBlank, Bool.or_eq_true, beq_iff_eq] at h
  rcases h with (((rfl | rfl) | rfl) | rfl) | rfl <;> rfl

/-- The characters in front of the end of a line are taken, and no more. -/
theorem takeWhile_dropWhile_line {comment rest : List Char} (hcomment : '\n' ∉ comment)
    (hrest : ∀ c ∈ rest.head?, c = '\n') :
    (comment ++ rest).takeWhile (· != '\n') = comment ∧
      (comment ++ rest).dropWhile (· != '\n') = rest := by
  have hall : ∀ c ∈ comment, (c != '\n') = true := by
    intro c hc
    rw [bne_iff_ne]
    rintro rfl
    exact hcomment hc
  rw [List.takeWhile_append_of_pos hall, List.dropWhile_append_of_pos hall]
  cases rest with
  | nil => simp
  | cons c rest =>
    obtain rfl := hrest c rfl
    simp

/-- The pieces are what is found at the start of a text. -/
theorem layoutPiece?_append_of_isPiece {piece rest : List Char} (h : IsPiece piece rest) :
    layoutPiece? (piece ++ rest) = some (piece, rest) := by
  cases h with
  | blank hblank => exact layoutPiece?_blank hblank rest
  | @line comment _ hcomment hrest =>
    obtain ⟨htake, hdrop⟩ := takeWhile_dropWhile_line hcomment hrest
    show layoutPiece? ('/' :: '/' :: (comment ++ rest)) = _
    rw [layoutPiece?, htake, hdrop]
  | @block comment _ hcomment =>
    show layoutPiece? ('/' :: '*' :: (comment ++ ['*', '/'] ++ rest)) = _
    rw [layoutPiece?, List.append_assoc,
      splitAfter?_append (by decide) (by decide) hcomment]
    rfl
  | @annotated comment _ hcomment =>
    show layoutPiece? ('<' :: '*' :: '*' :: (comment ++ ['*', '*', '>'] ++ rest)) = _
    rw [layoutPiece?, List.append_assoc,
      splitAfter?_append (by decide) (by decide) hcomment]
    rfl

/-- What is found at the start of a text is a piece. -/
theorem isPiece_of_layoutPiece? {text piece rest : List Char}
    (h : layoutPiece? text = some (piece, rest)) : IsPiece piece rest := by
  unfold layoutPiece? at h
  split at h
  · next text =>
    obtain ⟨rfl, rfl⟩ := Prod.mk.inj (Option.some.inj h)
    refine .line ?_ ?_
    · intro hmem
      have hne := List.mem_takeWhile_imp hmem
      exact absurd hne (by decide)
    · intro c hc
      have hnot := List.head?_dropWhile_not (· != '\n') text
      rw [Option.mem_def.mp hc] at hnot
      simpa using hnot
  · obtain ⟨⟨inside, after⟩, hsplit, heq⟩ := Option.map_eq_some_iff.mp h
    obtain ⟨rfl, rfl⟩ := Prod.mk.inj heq
    obtain ⟨comment, rfl, hnot⟩ := exists_of_splitAfter? hsplit (by decide)
    exact .block hnot
  · obtain ⟨⟨inside, after⟩, hsplit, heq⟩ := Option.map_eq_some_iff.mp h
    obtain ⟨rfl, rfl⟩ := Prod.mk.inj heq
    obtain ⟨comment, rfl, hnot⟩ := exists_of_splitAfter? hsplit (by decide)
    exact .annotated hnot
  · next c rest' _ _ _ =>
    by_cases hblank : isBlank c = true
    · rw [if_pos hblank] at h
      obtain ⟨rfl, rfl⟩ := Prod.mk.inj (Option.some.inj h)
      exact .blank hblank
    · rw [if_neg hblank] at h
      cases h
  · cases h

/-- A piece starts with a character with which layout starts. -/
theorem IsPiece.startsLayout {piece rest : List Char} (h : IsPiece piece rest) :
    StartsLayout (piece ++ rest) := by
  cases h with
  | blank hblank => exact ⟨_, _, rfl, Or.inl hblank⟩
  | line => exact ⟨'/', _, rfl, Or.inr (Or.inl rfl)⟩
  | block => exact ⟨'/', _, rfl, Or.inr (Or.inl rfl)⟩
  | annotated => exact ⟨'<', _, rfl, Or.inr (Or.inr rfl)⟩

/-! ## Runs of pieces -/

/-- A piece is dropped with the layout behind it. -/
theorem dropLayout_append_of_isPiece {piece rest : List Char} (h : IsPiece piece rest) :
    dropLayout (piece ++ rest) = (piece ++ (dropLayout rest).1, (dropLayout rest).2) := by
  have hpiece := layoutPiece?_append_of_isPiece h
  rw [dropLayout]
  split
  · next hnone =>
    rw [hpiece] at hnone
    cases hnone
  · next hsome =>
    rw [hpiece] at hsome
    obtain ⟨rfl, rfl⟩ := Prod.mk.inj (Option.some.inj hsome)
    rfl

/-- Blanks are dropped with the layout behind them. -/
theorem dropLayout_append_of_blanks {blanks : List Char} (h : ∀ c ∈ blanks, isBlank c = true)
    (rest : List Char) :
    dropLayout (blanks ++ rest) = (blanks ++ (dropLayout rest).1, (dropLayout rest).2) := by
  induction blanks with
  | nil => rfl
  | cons c cs ih =>
    rw [List.forall_mem_cons] at h
    have hpiece : IsPiece [c] (cs ++ rest) := .blank h.1
    show dropLayout ([c] ++ (cs ++ rest)) = _
    rw [dropLayout_append_of_isPiece hpiece, ih h.2]
    rfl

/-- In front of other characters nothing is dropped. -/
theorem dropLayout_of_not_startsLayout {text : List Char} (h : ¬ StartsLayout text) :
    dropLayout text = ([], text) := by
  rw [dropLayout]
  split
  · rfl
  · next hsome =>
    have hpiece := isPiece_of_layoutPiece? hsome
    have hstarts := hpiece.startsLayout
    rw [append_of_layoutPiece? hsome] at hstarts
    exact absurd hstarts h

/-- The layout in front of a word does not depend on anything behind the first character of that
word. -/
theorem dropLayout_congr {text layout body body' : List Char}
    (h : dropLayout text = (layout, body)) (hhead : body'.head? = body.head?)
    (hbody : ¬ StartsLayout body') : dropLayout (layout ++ body') = (layout, body') := by
  fun_induction dropLayout text generalizing layout with
  | case1 text hnone =>
    obtain ⟨rfl, rfl⟩ := Prod.mk.inj h
    exact dropLayout_of_not_startsLayout hbody
  | case2 text piece rest hsome _ more after hsplit ih =>
    obtain ⟨rfl, rfl⟩ := Prod.mk.inj h
    have hrest := append_dropLayout rest
    rw [hsplit] at hrest
    -- what follows the piece starts as before, so that the piece is found again
    have hpiece : IsPiece piece (more ++ body') := by
      refine (isPiece_of_layoutPiece? hsome).of_head? ?_
      rw [← hrest, List.head?_append, List.head?_append, hhead]
    rw [List.append_assoc, dropLayout_append_of_isPiece hpiece, ih hsplit]

/-! ## Layout to put in -/

/-- A **gap**: blanks, or a comment or an annotation that comes to its end. -/
inductive IsGap : List Char → Prop where
  /-- One or more blanks. -/
  | blanks {blanks : List Char} (hne : blanks ≠ []) (hall : ∀ c ∈ blanks, isBlank c = true) :
      IsGap blanks
  /-- A comment between marks. -/
  | block {comment : List Char} (hcomment : ¬ ['*', '/'] <:+: comment) :
      IsGap ('/' :: '*' :: (comment ++ ['*', '/']))
  /-- A comment with the end of its line. -/
  | line {comment : List Char} (hcomment : '\n' ∉ comment) :
      IsGap ('/' :: '/' :: (comment ++ ['\n']))
  /-- An annotation. -/
  | annotated {comment : List Char} (hcomment : ¬ ['*', '*', '>'] <:+: comment) :
      IsGap ('<' :: '*' :: '*' :: (comment ++ ['*', '*', '>']))

namespace IsGap

variable {gap : List Char} (h : IsGap gap) (text : List Char)
include h

/-- A gap starts with a character with which layout starts. -/
theorem startsLayout_append : StartsLayout (gap ++ text) := by
  cases h with
  | blanks hne hall =>
    obtain ⟨c, cs, rfl⟩ := List.exists_cons_of_ne_nil hne
    exact ⟨c, cs ++ text, rfl, Or.inl (hall c List.mem_cons_self)⟩
  | block => exact ⟨'/', _, rfl, Or.inr (Or.inl rfl)⟩
  | line => exact ⟨'/', _, rfl, Or.inr (Or.inl rfl)⟩
  | annotated => exact ⟨'<', _, rfl, Or.inr (Or.inr rfl)⟩

/-- A gap is dropped with the layout behind it. -/
theorem dropLayout_append :
    dropLayout (gap ++ text) = (gap ++ (dropLayout text).1, (dropLayout text).2) := by
  cases h with
  | blanks _ hall => exact dropLayout_append_of_blanks hall text
  | block hcomment => exact dropLayout_append_of_isPiece (.block hcomment)
  | @line comment hcomment =>
    -- the end of the line is a blank of its own
    have hpiece : IsPiece ('/' :: '/' :: comment) (['\n'] ++ text) :=
      .line hcomment fun c hc => (Option.some.inj hc).symm
    have hblank : IsPiece ['\n'] text := .blank rfl
    have hsplit : '/' :: '/' :: (comment ++ ['\n']) ++ text =
        '/' :: '/' :: comment ++ (['\n'] ++ text) := by
      simp
    rw [hsplit, dropLayout_append_of_isPiece hpiece, dropLayout_append_of_isPiece hblank]
    simp
  | annotated hcomment => exact dropLayout_append_of_isPiece (.annotated hcomment)

end IsGap

end FrancaLint.Source
