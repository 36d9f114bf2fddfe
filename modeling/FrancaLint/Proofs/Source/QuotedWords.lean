import FrancaLint.Proofs.Source.Literals
import FrancaLint.Proofs.Source.Matches

/-! # Quoted words

The word that is found at a quote goes up to the next quote with no backslash of its own, and is
read from left to right.

* `exists_of_stringTailLength?`: what may stand between quotes is found up to the closing one.
* `quotedText_eq_unescape`: replacing escaped quotes first and escaped backslashes then gives the
  same text as reading from left to right, with every quoted word that is found.
* `eq_quoted_of_wordLength`: what is written as the quoted form of a text is found as one word. -/

namespace FrancaLint.Source

/-- What is found behind an opening quote goes up to the next closing one. -/
theorem exists_of_stringTailLength? {text : List Char} {length : Nat}
    (h : stringTailLength? text = some length) :
    ∃ inner rest, text = inner ++ '"' :: rest ∧ length = inner.length + 1 ∧ IsQuotable inner := by
  fun_induction stringTailLength? text generalizing length with
  | case1 => cases h
  | case2 rest =>
    obtain rfl := Option.some.inj h
    exact ⟨[], rest, rfl, rfl, .nil⟩
  | case3 => cases h
  | case4 c rest hline ih =>
    obtain ⟨shorter, hshorter, rfl⟩ := Option.map_eq_some_iff.mp h
    obtain ⟨inner, behind, rfl, rfl, hinner⟩ := ih hshorter
    exact ⟨'\\' :: c :: inner, behind, rfl, rfl, .escaped hinner⟩
  | case5 => cases h
  | case6 c rest hquote hbackslash hline ih =>
    obtain ⟨shorter, hshorter, rfl⟩ := Option.map_eq_some_iff.mp h
    obtain ⟨inner, behind, rfl, rfl, hinner⟩ := ih hshorter
    -- a backslash that nothing follows is no start of a match
    have hplain : c ≠ '\\' := by
      rintro rfl
      cases inner with
      | nil => exact hbackslash '"' behind rfl rfl
      | cons d inner => exact hbackslash d (inner ++ '"' :: behind) rfl rfl
    exact ⟨c :: inner, behind, rfl, rfl, .plain hquote hplain hinner⟩

/-- **A quoted word is read from left to right.** Whatever word is found at the start of a text, it
stands between quotes, and both replacements give what reading it from left to right gives. -/
theorem quotedText_eq_unescape {text : List Char} (h : 0 < Terminal.string.wordLength text) :
    ∃ inner, text.take (Terminal.string.wordLength text) = '"' :: (inner ++ ['"']) ∧
      quotedText (text.take (Terminal.string.wordLength text)) = unescape inner := by
  obtain ⟨c, rest, rfl⟩ := List.exists_cons_of_ne_nil
    (List.ne_nil_of_length_pos (h.trans_le (wordLength_le _ text)))
  obtain rfl : c = '"' := by
    by_contra hquote
    rw [Terminal.wordLength, stringLength_eq_zero hquote] at h
    exact absurd h (Nat.lt_irrefl 0)
  rw [Terminal.wordLength, stringLength] at h ⊢
  cases htail : stringTailLength? rest with
  | none =>
    rw [htail] at h
    exact absurd h (Nat.lt_irrefl 0)
  | some length =>
    obtain ⟨inner, behind, rfl, rfl, hinner⟩ := exists_of_stringTailLength? htail
    have hword : ('"' :: (inner ++ '"' :: behind)).take (inner.length + 1 + 1) =
        '"' :: (inner ++ ['"']) := by
      rw [List.take_succ_cons, List.take_length_add_append]
      rfl
    rw [Option.map_some, Option.getD_some, hword]
    refine ⟨inner, rfl, ?_⟩
    rw [quotedText, List.tail_cons, List.dropLast_concat, replacePair_replacePair hinner]

/-- The quoted form of a text is found as one word, whatever follows. -/
theorem longest?_quoted_append {allowed : List Terminal} (hallowed : allowed ⊆ vocabulary)
    (hmem : .string ∈ allowed) {text : List Char} (h : '\n' ∉ text) (rest : List Char) :
    longest? allowed (quoted text ++ rest) = some (.string, (quoted text).length) := by
  have hlength : Terminal.string.wordLength (quoted text ++ rest) = (quoted text).length :=
    stringLength_quoted_append h rest
  have hpos : 0 < (quoted text).length := Nat.succ_pos _
  rw [← hlength] at hpos ⊢
  refine longest?_eq_some hmem hpos fun other hother hne => Or.inl ?_
  -- no other word starts with a quote
  have hzero : other.wordLength (quoted text ++ rest) = 0 := by
    by_contra hother_pos
    have hhead := isHead_of_mem_vocabulary (hallowed hother) (Nat.pos_of_ne_zero hother_pos)
    exact hne (eq_string_of_isHead_quote hhead)
  rw [hzero]
  exact hpos

/-- A quoted word where the quoted form of a text stands is that form. -/
theorem eq_quoted_of_wordLength {text word back more : List Char} (h : '\n' ∉ text)
    (hword : Terminal.string.wordLength (word ++ back) = word.length)
    (htext : word ++ back = quoted text ++ more) : word = quoted text := by
  rw [htext] at hword
  have hlength : (quoted text).length = word.length :=
    (stringLength_quoted_append h more).symm.trans hword
  exact (List.append_inj htext hlength.symm).1

end FrancaLint.Source
