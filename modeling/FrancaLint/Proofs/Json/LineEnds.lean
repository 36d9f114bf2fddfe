import FrancaLint.Proofs.Json.Reading
import FrancaLint.Text.Encoding

/-! # Line ends in JSON

A reader of JSON takes no notice of how lines end: they end between the values, where line feeds and
carriage returns are blanks, and no string goes over the end of a line.

* `Agree`: two readers find the same, and the same is left but for the line ends.
* `agree_readValue`: a text is read like the text with unified line ends.
* `read_unifyLineEnds`: how lines end does not matter in JSON. -/

namespace FrancaLint

/-! ## Unified line ends -/

/-- A character that ends no line stays. -/
theorem unifyLineEnds_cons {c : Char} (hc : c ≠ '\r') (rest : List Char) :
    unifyLineEnds (c :: rest) = c :: unifyLineEnds rest := by
  rw [unifyLineEnds]
  · rintro more rfl
    exact absurd rfl hc
  · exact hc

/-- A carriage return becomes a line feed. -/
theorem exists_unifyLineEnds_return (rest : List Char) :
    ∃ more, unifyLineEnds ('\r' :: rest) = '\n' :: more := by
  unfold unifyLineEnds
  split
  · exact ⟨_, rfl⟩
  · exact ⟨_, rfl⟩
  · next hreturn heq =>
    exact absurd (List.cons.inj heq).1.symm hreturn
  · next heq => cases heq

/-- What is not empty stays so. -/
theorem exists_unifyLineEnds_cons (c : Char) (rest : List Char) :
    ∃ d more, unifyLineEnds (c :: rest) = d :: more := by
  by_cases hc : c = '\r'
  · subst hc
    obtain ⟨more, hmore⟩ := exists_unifyLineEnds_return rest
    exact ⟨_, more, hmore⟩
  · exact ⟨c, _, unifyLineEnds_cons hc rest⟩

/-- A text is empty, starts with a carriage return, or starts with a character that stays. -/
theorem unifyLineEnds_cases (text : List Char) : text = [] ∨
    (∃ rest more, text = '\r' :: rest ∧ unifyLineEnds text = '\n' :: more) ∨
      ∃ c rest, c ≠ '\r' ∧ text = c :: rest ∧ unifyLineEnds text = c :: unifyLineEnds rest := by
  cases text with
  | nil => exact .inl rfl
  | cons c rest =>
    by_cases hc : c = '\r'
    · subst hc
      obtain ⟨more, hmore⟩ := exists_unifyLineEnds_return rest
      exact .inr (.inl ⟨rest, more, rfl, hmore⟩)
    · exact .inr (.inr ⟨c, rest, hc, rfl, unifyLineEnds_cons hc rest⟩)

/-- Characters that end no lines stay. -/
theorem unifyLineEnds_append {front : List Char} (hfront : '\r' ∉ front) (rest : List Char) :
    unifyLineEnds (front ++ rest) = front ++ unifyLineEnds rest := by
  induction front with
  | nil => rfl
  | cons c front ih =>
    rw [List.mem_cons, not_or] at hfront
    rw [List.cons_append, unifyLineEnds_cons (Ne.symm hfront.1), ih hfront.2, List.cons_append]

/-- What ends no lines was there before. -/
theorem exists_of_unifyLineEnds_eq_append (front : List Char) {text rest : List Char}
    (hfront : '\n' ∉ front) (h : unifyLineEnds text = front ++ rest) :
    ∃ more, text = front ++ more ∧ rest = unifyLineEnds more := by
  induction front generalizing text with
  | nil => exact ⟨text, rfl, h.symm⟩
  | cons c front ih =>
    rw [List.mem_cons, not_or] at hfront
    cases text with
    | nil => cases h
    | cons d text =>
      by_cases hd : d = '\r'
      · subst hd
        obtain ⟨more, hmore⟩ := exists_unifyLineEnds_return text
        rw [hmore] at h
        exact absurd (List.cons.inj h).1 hfront.1
      · rw [unifyLineEnds_cons hd] at h
        obtain ⟨rfl, hrest⟩ := List.cons.inj h
        obtain ⟨more, rfl, hmore⟩ := ih hfront.2 hrest
        exact ⟨more, rfl, hmore⟩

namespace Json

/-- Blanks in front of a text are dropped all the same. -/
theorem dropBlanks_unifyLineEnds (text : List Char) :
    dropBlanks (unifyLineEnds text) = unifyLineEnds (dropBlanks text) := by
  fun_induction unifyLineEnds text with
  | case1 rest ih => exact ih
  | case2 rest hrest ih => exact ih
  | case3 c rest hcrlf hcr ih =>
    unfold dropBlanks at ih ⊢
    rw [List.dropWhile_cons, List.dropWhile_cons]
    split
    · exact ih
    · exact (unifyLineEnds_cons (fun h => hcr h) rest).symm
  | case4 => rfl

/-! ## Code units -/

/-- A hexadecimal digit ends no line. -/
theorem ne_of_hexDigit?_eq_some {c : Char} {n : Nat} (h : hexDigit? c = some n) :
    '\r' ≠ c ∧ '\n' ≠ c := by
  constructor <;> rintro rfl <;> cases h

/-- The characters of a code unit end no lines. -/
theorem not_mem_of_codeUnit?_eq_some {a b c d : Char} {unit : Nat}
    (h : codeUnit? a b c d = some unit) : '\r' ∉ [a, b, c, d] ∧ '\n' ∉ [a, b, c, d] := by
  unfold codeUnit? at h
  split at h
  · next ha hb hc hd =>
    simp [ne_of_hexDigit?_eq_some ha, ne_of_hexDigit?_eq_some hb, ne_of_hexDigit?_eq_some hc,
      ne_of_hexDigit?_eq_some hd]
  · cases h

/-- The code unit is found at the start of the text with other line ends. -/
theorem unit?_unifyLineEnds (text : List Char) :
    unit? (unifyLineEnds text) =
      (unit? text).map fun (unit, rest) => (unit, unifyLineEnds rest) := by
  cases h : unit? text with
  | some pair =>
    obtain ⟨unit, rest⟩ := pair
    obtain ⟨a, b, c, d, e, more, rfl, hunit, rfl⟩ := exists_of_unit?_eq_some h
    have hfront := unifyLineEnds_append (not_mem_of_codeUnit?_eq_some hunit).1 (e :: more)
    obtain ⟨e', more', hmore⟩ := exists_unifyLineEnds_cons e more
    rw [List.cons_append, List.cons_append, List.cons_append, List.singleton_append] at hfront
    rw [hfront, hmore, List.cons_append, List.cons_append, List.cons_append,
      List.singleton_append, unit?, hunit, Option.map_some, Option.map_some, ← hmore]
  | none =>
    rw [Option.map_none]
    refine Option.eq_none_iff_forall_not_mem.mpr fun pair hpair => ?_
    obtain ⟨a, b, c, d, e, more, hunified, hunit, -⟩ := exists_of_unit?_eq_some hpair
    obtain ⟨rest, rfl, hrest⟩ := exists_of_unifyLineEnds_eq_append _
      (not_mem_of_codeUnit?_eq_some hunit).2 hunified
    cases rest with
    | nil => cases hrest
    | cons e' more' =>
      rw [List.cons_append, List.cons_append, List.cons_append, List.singleton_append, unit?,
        hunit] at h
      cases h

/-- So is that of a second escape. -/
theorem nextUnit?_unifyLineEnds (text : List Char) : nextUnit? (unifyLineEnds text) =
    (nextUnit? text).map fun (unit, rest) => (unit, unifyLineEnds rest) := by
  by_cases hescape : ∃ more, text = ['\\', 'u'] ++ more
  · obtain ⟨more, rfl⟩ := hescape
    rw [unifyLineEnds_append (by decide)]
    exact unit?_unifyLineEnds more
  · have hnone : ∀ {other : List Char}, (∀ more, other ≠ ['\\', 'u'] ++ more) →
        nextUnit? other = none := by
      intro other hother
      unfold nextUnit?
      split
      · exact absurd rfl (hother _)
      · rfl
    rw [hnone fun more hmore => hescape ⟨more, hmore⟩, Option.map_none]
    refine hnone fun more hmore => hescape ?_
    obtain ⟨rest, hrest, -⟩ := exists_of_unifyLineEnds_eq_append _ (by decide) hmore
    exact ⟨rest, hrest⟩

/-! ## Answers -/

/-- Two answers **agree** but for line ends: they have the same value, and what is left differs in
its line ends only, or they have the same defect. -/
inductive Agree {α : Type} : Except Fault (α × List Char) → Except Fault (α × List Char) → Prop
  /-- The same value. -/
  | read (a : α) (rest : List Char) : Agree (.ok (a, rest)) (.ok (a, unifyLineEnds rest))
  /-- The same defect. -/
  | fault (defect : Defect) (rest other : List Char) :
      Agree (.error ⟨defect, rest⟩) (.error ⟨defect, other⟩)

/-- Answers agree when their values are turned into others. -/
theorem Agree.map {α β : Type} {x y : Except Fault (α × List Char)} (h : Agree x y) (f : α → β) :
    Agree (x.map fun (a, rest) => (f a, rest)) (y.map fun (a, rest) => (f a, rest)) := by
  cases h with
  | read a rest => exact .read (f a) rest
  | fault defect rest other => exact .fault defect rest other

/-- Answers agree when what follows them agrees. -/
theorem Agree.bind {α β : Type} {x y : Except Fault (α × List Char)} (h : Agree x y)
    {f g : α × List Char → Except Fault (β × List Char)}
    (hnext : ∀ a rest, x = .ok (a, rest) → y = .ok (a, unifyLineEnds rest) →
      Agree (f (a, rest)) (g (a, unifyLineEnds rest))) : Agree (x >>= f) (y >>= g) := by
  cases h with
  | read a rest => exact hnext a rest rfl rfl
  | fault defect rest other => exact .fault defect rest other

/-! ## Strings -/

/-- Escapes for code units are read alike. -/
theorem agree_readChars_unicode {opening other text : List Char}
    (ih : ∀ rest, rest.length < text.length →
      Agree (readChars opening rest) (readChars other (unifyLineEnds rest))) :
    Agree (readChars opening ('\\' :: 'u' :: text))
      (readChars other ('\\' :: 'u' :: unifyLineEnds text)) := by
  have hunified := unit?_unifyLineEnds text
  cases hunit : unit? text with
  | none =>
    rw [hunit] at hunified
    rw [readChars_of_unit?_eq_none hunit, readChars_of_unit?_eq_none hunified]
    exact .fault _ _ _
  | some pair =>
    obtain ⟨unit, rest⟩ := pair
    rw [hunit] at hunified
    rw [readChars_of_unit?_eq_some hunit, readChars_of_unit?_eq_some hunified,
      nextUnit?_unifyLineEnds]
    have hrest := length_lt_of_unit?_eq_some hunit
    cases hnext : nextUnit? rest with
    | none => exact (ih rest hrest).map (unitChar unit :: ·)
    | some pair =>
      obtain ⟨low, after⟩ := pair
      simp only [Option.map_some]
      split
      · exact (ih after ((length_lt_of_nextUnit?_eq_some hnext).trans hrest)).map
          (pairChar unit low :: ·)
      · exact (ih rest hrest).map (unitChar unit :: ·)

/-- Other escapes are read alike. -/
theorem agree_readChars_escape {c : Char} (hc : c ≠ 'u') {opening other rest : List Char}
    (hrest : Agree (readChars opening rest) (readChars other (unifyLineEnds rest))) :
    Agree (readChars opening ('\\' :: c :: rest))
      (readChars other ('\\' :: unifyLineEnds (c :: rest))) := by
  rw [readChars_escape hc]
  by_cases hreturn : c = '\r'
  · subst hreturn
    obtain ⟨more, hmore⟩ := exists_unifyLineEnds_return rest
    rw [hmore, readChars_escape (by decide)]
    exact .fault _ _ _
  · rw [unifyLineEnds_cons hreturn, readChars_escape hc]
    cases escaped? c with
    | none => exact .fault _ _ _
    | some e => exact hrest.map (e :: ·)

/-- Strings are read alike. -/
theorem agree_readChars (opening other text : List Char) :
    Agree (readChars opening text) (readChars other (unifyLineEnds text)) := by
  induction hlength : text.length using Nat.strong_induction_on generalizing text with
  | _ n ih =>
    cases text with
    | nil => exact .fault _ _ _
    | cons c rest =>
      rw [List.length_cons] at hlength
      have hrest := ih rest.length (by omega) rest rfl
      by_cases hquote : c = '"'
      · subst hquote
        rw [unifyLineEnds_cons (by decide), readChars, readChars]
        exact .read [] rest
      by_cases hbackslash : c = '\\'
      · subst hbackslash
        rw [unifyLineEnds_cons (by decide)]
        cases rest with
        | nil => exact .fault _ _ _
        | cons d more =>
          rw [List.length_cons] at hlength
          by_cases hu : d = 'u'
          · subst hu
            rw [unifyLineEnds_cons (by decide)]
            exact agree_readChars_unicode fun rest hrest => ih rest.length (by omega) rest rfl
          · exact agree_readChars_escape hu (ih more.length (by omega) more rfl)
      rw [readChars_plain hquote hbackslash]
      by_cases hreturn : c = '\r'
      · subst hreturn
        obtain ⟨more, hmore⟩ := exists_unifyLineEnds_return rest
        rw [hmore, readChars_plain (by decide) (by decide), if_pos (by decide),
          if_pos (by decide)]
        exact .fault _ _ _
      · rw [unifyLineEnds_cons hreturn, readChars_plain hquote hbackslash]
        split
        · exact .fault _ _ _
        · exact hrest.map (c :: ·)

/-- A string between quotes is read alike. -/
theorem agree_readString (opening other text : List Char) :
    Agree (readString opening text) (readString other (unifyLineEnds text)) :=
  (agree_readChars opening other text).map String.ofList

/-! ## Numbers -/

/-- Digits are taken alike. -/
theorem digits_unifyLineEnds (text : List Char) :
    (unifyLineEnds text).takeWhile Char.isDigit = text.takeWhile Char.isDigit ∧
      (unifyLineEnds text).dropWhile Char.isDigit =
        unifyLineEnds (text.dropWhile Char.isDigit) := by
  induction text with
  | nil => exact ⟨rfl, rfl⟩
  | cons c rest ih =>
    by_cases hc : c.isDigit = true
    · have hreturn : c ≠ '\r' := by
        rintro rfl
        cases hc
      rw [unifyLineEnds_cons hreturn, List.takeWhile_cons_of_pos hc, List.takeWhile_cons_of_pos hc,
        List.dropWhile_cons_of_pos hc, List.dropWhile_cons_of_pos hc, ih.1, ih.2]
      exact ⟨rfl, rfl⟩
    · rw [List.takeWhile_cons_of_neg hc, List.dropWhile_cons_of_neg hc]
      rcases unifyLineEnds_cases (c :: rest) with h | ⟨_, more, -, h⟩ | ⟨d, more, -, heq, h⟩
      · cases h
      · rw [h]
        exact ⟨rfl, rfl⟩
      · obtain ⟨rfl, -⟩ := List.cons.inj heq
        rw [h, List.takeWhile_cons_of_neg hc, List.dropWhile_cons_of_neg hc]
        exact ⟨rfl, rfl⟩

/-- The digits in front of the point are found alike. -/
theorem wholeDigits?_unifyLineEnds (text : List Char) : wholeDigits? (unifyLineEnds text) =
    (wholeDigits? text).map fun (digits, rest) => (digits, unifyLineEnds rest) := by
  have hdigits : ∀ {c : Char}, c ≠ '0' → ∀ rest, wholeDigits? (c :: rest) =
      if c.isDigit then some (c :: rest.takeWhile Char.isDigit, rest.dropWhile Char.isDigit)
      else none := by
    intro c hc rest
    rw [wholeDigits?]
    exact hc
  rcases unifyLineEnds_cases text with rfl | ⟨rest, more, rfl, h⟩ | ⟨c, rest, -, rfl, h⟩
  · rfl
  · rw [h]
    rfl
  · rw [h]
    by_cases hzero : c = '0'
    · subst hzero
      rfl
    · rw [hdigits hzero, hdigits hzero, (digits_unifyLineEnds rest).1,
        (digits_unifyLineEnds rest).2]
      split <;> rfl

/-- The digits behind the point are found alike. -/
theorem fractionDigits?_unifyLineEnds (text : List Char) : fractionDigits? (unifyLineEnds text) =
    (fractionDigits? text).map fun (digits, rest) => (digits, unifyLineEnds rest) := by
  have hnone : ∀ {c : Char}, c ≠ '.' → ∀ rest, fractionDigits? (c :: rest) = none := by
    intro c hc rest
    rw [fractionDigits?]
    rintro d more heq
    exact hc (List.cons.inj heq).1
  rcases unifyLineEnds_cases text with rfl | ⟨rest, more, rfl, h⟩ | ⟨c, rest, -, rfl, h⟩
  · rfl
  · rw [h, hnone (by decide), hnone (by decide)]
    rfl
  · rw [h]
    by_cases hpoint : c = '.'
    · subst hpoint
      rcases unifyLineEnds_cases rest with rfl | ⟨_, more, rfl, hrest⟩ | ⟨d, rest, -, rfl, hrest⟩
      · rfl
      · rw [hrest]
        rfl
      · rw [hrest, fractionDigits?, fractionDigits?, (digits_unifyLineEnds rest).1,
          (digits_unifyLineEnds rest).2]
        split <;> rfl
    · rw [hnone hpoint, hnone hpoint]
      rfl

/-- The minus is found alike. -/
theorem splitMinus_unifyLineEnds (text : List Char) : splitMinus (unifyLineEnds text) =
    ((splitMinus text).1, unifyLineEnds (splitMinus text).2) := by
  have hplain : ∀ {c : Char}, c ≠ '-' → ∀ rest, splitMinus (c :: rest) = (false, c :: rest) := by
    intro c hc rest
    rw [splitMinus]
    rintro body heq
    exact hc (List.cons.inj heq).1
  rcases unifyLineEnds_cases text with rfl | ⟨rest, more, rfl, h⟩ | ⟨c, rest, -, rfl, h⟩
  · rfl
  · rw [hplain (by decide), h]
    rfl
  · rw [h]
    by_cases hc : c = '-'
    · subst hc
      rfl
    · rw [hplain hc, hplain hc, h]

/-- The sign of an exponent is found alike. -/
theorem splitSign_unifyLineEnds (text : List Char) : splitSign (unifyLineEnds text) =
    ((splitSign text).1, unifyLineEnds (splitSign text).2) := by
  have hplain : ∀ {c : Char}, c ≠ '-' → c ≠ '+' → ∀ rest,
      splitSign (c :: rest) = (false, c :: rest) := by
    intro c hminus hplus rest
    rw [splitSign]
    · rintro body heq
      exact hminus (List.cons.inj heq).1
    · rintro body heq
      exact hplus (List.cons.inj heq).1
  rcases unifyLineEnds_cases text with rfl | ⟨rest, more, rfl, h⟩ | ⟨c, rest, -, rfl, h⟩
  · rfl
  · rw [hplain (by decide) (by decide), h]
    rfl
  · rw [h]
    by_cases hminus : c = '-'
    · subst hminus
      rfl
    by_cases hplus : c = '+'
    · subst hplus
      rfl
    rw [hplain hminus hplus, hplain hminus hplus, h]

/-- The exponent is found alike. -/
theorem exponent?_unifyLineEnds (text : List Char) : exponent? (unifyLineEnds text) =
    (exponent? text).map fun (power, rest) => (power, unifyLineEnds rest) := by
  rcases unifyLineEnds_cases text with rfl | ⟨rest, more, rfl, h⟩ | ⟨c, rest, -, rfl, h⟩
  · rfl
  · rw [h]
    rfl
  · rw [h, exponent?_cons, exponent?_cons, splitSign_unifyLineEnds, (digits_unifyLineEnds _).1,
      (digits_unifyLineEnds _).2]
    split
    · split <;> rfl
    · rfl

/-- Numbers are read alike. -/
theorem agree_readNumber (text : List Char) :
    Agree (readNumber text) (readNumber (unifyLineEnds text)) := by
  rw [readNumber_eq, readNumber_eq, splitMinus_unifyLineEnds, wholeDigits?_unifyLineEnds]
  cases wholeDigits? (splitMinus text).2 with
  | none => exact .fault _ _ _
  | some whole =>
    simp only [Option.map_some, fractionDigits?_unifyLineEnds]
    cases fractionDigits? whole.2 with
    | some fraction =>
      simp only [Option.map_some, exponent?_unifyLineEnds]
      cases exponent? fraction.2 with
      | some power => exact .read _ _
      | none => exact .read _ _
    | none =>
      simp only [Option.map_none, exponent?_unifyLineEnds]
      cases exponent? whole.2 with
      | some power => exact .read _ _
      | none =>
        simp only [Option.map_none]
        split
        · exact .fault _ _ _
        · exact .read _ _

/-! ## Values -/

/-- The parts of a container are read alike. -/
theorem agree_readParts {α : Type} {closing : Char} (hclosing : '\r' ≠ closing ∧ '\n' ≠ closing)
    {one other : List Char → Except Fault (List α × List Char)} {text : List Char}
    (h : Agree (one (dropBlanks text)) (other (unifyLineEnds (dropBlanks text)))) :
    Agree (readParts closing one text) (readParts closing other (unifyLineEnds text)) := by
  rw [readParts, readParts, dropBlanks_unifyLineEnds]
  rcases unifyLineEnds_cases (dropBlanks text) with
    hblanks | ⟨rest, more, hblanks, hmore⟩ | ⟨c, rest, -, hblanks, hmore⟩
  · rw [hblanks] at h ⊢
    exact h
  · rw [hmore] at h ⊢
    rw [hblanks] at h ⊢
    rw [if_neg (by simp [hclosing.1]), if_neg (by simp [hclosing.2])]
    exact h
  · rw [hmore] at h ⊢
    rw [hblanks] at h ⊢
    by_cases hc : c = closing
    · rw [if_pos (by rw [hc, List.head?_cons]), if_pos (by rw [hc, List.head?_cons])]
      exact .read [] rest
    · rw [if_neg (by simpa using hc), if_neg (by simpa using hc)]
      exact h

/-- The other parts of a container are read alike. -/
theorem agree_readOthers {α : Type} {closing : Char} (hclosing : '\r' ≠ closing ∧ '\n' ≠ closing)
    {one other : List Char → Except Fault (List α × List Char)} {text : List Char}
    (h : ∀ after, after.length < text.length →
      (unifyLineEnds after).length < (unifyLineEnds text).length →
        Agree (one (dropBlanks after)) (other (unifyLineEnds (dropBlanks after)))) :
    Agree (readOthers closing one text) (readOthers closing other (unifyLineEnds text)) := by
  have hshort := length_dropBlanks_le text
  have hshort' := length_dropBlanks_le (unifyLineEnds text)
  rw [dropBlanks_unifyLineEnds] at hshort'
  rw [readOthers, readOthers, dropBlanks_unifyLineEnds]
  rcases unifyLineEnds_cases (dropBlanks text) with
    hblanks | ⟨rest, more, hblanks, hmore⟩ | ⟨c, rest, -, hblanks, hmore⟩
  · rw [hblanks]
    exact .fault _ _ _
  · rw [hmore, hblanks]
    simp only [if_neg hclosing.1, if_neg hclosing.2]
    exact .fault _ _ _
  · rw [hmore, List.length_cons] at hshort'
    rw [hblanks, List.length_cons] at hshort
    rw [hmore, hblanks]
    dsimp only
    split
    · exact .read [] rest
    split
    · rw [dropBlanks_unifyLineEnds]
      exact h rest hshort hshort'
    · exact .fault _ _ _

/-- A key is read alike. -/
theorem agree_readKey (text : List Char) :
    Agree (readKey text) (readKey (unifyLineEnds text)) := by
  by_cases hquote : ∃ rest, text = '"' :: rest
  · obtain ⟨rest, rfl⟩ := hquote
    rw [unifyLineEnds_cons (by decide)]
    exact agree_readString _ _ rest
  · rw [readKey_other fun rest hrest => hquote ⟨rest, hrest⟩, readKey_other fun rest hrest => ?_]
    · exact .fault _ _ _
    · obtain ⟨more, hmore, -⟩ := exists_of_unifyLineEnds_eq_append ['"'] (by decide) hrest
      exact hquote ⟨more, hmore⟩

/-- The value of a field is read alike. -/
theorem agree_readFieldValue {steps other depth : Nat} {text : List Char}
    (h : ∀ after, after.length < text.length →
      (unifyLineEnds after).length < (unifyLineEnds text).length →
        Agree (readValue steps depth (dropBlanks after))
          (readValue other depth (unifyLineEnds (dropBlanks after)))) :
    Agree (readFieldValue steps depth text) (readFieldValue other depth (unifyLineEnds text)) := by
  have hshort := length_dropBlanks_le text
  have hshort' := length_dropBlanks_le (unifyLineEnds text)
  by_cases hcolon : ∃ rest, dropBlanks text = ':' :: rest
  · obtain ⟨rest, hrest⟩ := hcolon
    have hrest' : dropBlanks (unifyLineEnds text) = ':' :: unifyLineEnds rest := by
      rw [dropBlanks_unifyLineEnds, hrest, unifyLineEnds_cons (by decide)]
    rw [hrest, List.length_cons] at hshort
    rw [hrest', List.length_cons] at hshort'
    rw [readFieldValue_colon hrest, readFieldValue_colon hrest', dropBlanks_unifyLineEnds]
    exact h rest hshort hshort'
  · rw [readFieldValue_other fun rest hrest => hcolon ⟨rest, hrest⟩,
      readFieldValue_other fun rest hrest => ?_]
    · exact .fault _ _ _
    · rw [dropBlanks_unifyLineEnds] at hrest
      obtain ⟨more, hmore, -⟩ := exists_of_unifyLineEnds_eq_append [':'] (by decide) hrest
      exact hcolon ⟨more, hmore⟩

/-- Values, items and fields are read alike, as long as there are steps enough on both sides: two
for each character, and one or two more. -/
theorem agree_readValue (steps : Nat) : ∀ other depth text,
    (2 * text.length + 1 ≤ steps → 2 * (unifyLineEnds text).length + 1 ≤ other →
      Agree (readValue steps depth text) (readValue other depth (unifyLineEnds text))) ∧
    (2 * text.length + 2 ≤ steps → 2 * (unifyLineEnds text).length + 2 ≤ other →
      Agree (readItems steps depth text) (readItems other depth (unifyLineEnds text)) ∧
        Agree (readFields steps depth text) (readFields other depth (unifyLineEnds text))) := by
  induction steps with
  | zero => exact fun _ _ _ => ⟨by omega, by omega⟩
  | succ steps ih =>
    intro other depth text
    cases other with
    | zero => exact ⟨by omega, by omega⟩
    | succ other =>
    -- dropping blanks takes no steps
    have hdrop : ∀ depth rest,
        (2 * rest.length + 1 ≤ steps → 2 * (unifyLineEnds rest).length + 1 ≤ other →
          Agree (readValue steps depth (dropBlanks rest))
            (readValue other depth (unifyLineEnds (dropBlanks rest)))) ∧
        (2 * rest.length + 2 ≤ steps → 2 * (unifyLineEnds rest).length + 2 ≤ other →
          Agree (readItems steps depth (dropBlanks rest))
              (readItems other depth (unifyLineEnds (dropBlanks rest))) ∧
            Agree (readFields steps depth (dropBlanks rest))
              (readFields other depth (unifyLineEnds (dropBlanks rest)))) := by
      intro depth rest
      have hshort := length_dropBlanks_le rest
      have hshort' := length_dropBlanks_le (unifyLineEnds rest)
      rw [dropBlanks_unifyLineEnds] at hshort'
      obtain ⟨hvalue, hparts⟩ := ih other depth (dropBlanks rest)
      exact ⟨fun _ _ => hvalue (by omega) (by omega), fun _ _ => hparts (by omega) (by omega)⟩
    refine ⟨fun hsteps hother => ?value, fun hsteps hother => ⟨?items, ?fields⟩⟩
    case value =>
      rcases opening_cases text with
        ⟨rest, rfl⟩ | ⟨rest, rfl⟩ | ⟨rest, rfl⟩ | ⟨literal, hliteral, rest, rfl⟩ | hnumber
      · rw [unifyLineEnds_cons (by decide)]
        exact (agree_readString _ _ rest).map Json.string
      · rw [unifyLineEnds_cons (by decide)] at hother ⊢
        rw [List.length_cons] at hsteps hother
        cases depth with
        | zero => exact .fault _ _ _
        | succ depth =>
          rw [readValue_object, readValue_object]
          exact Agree.map (agree_readParts (by decide)
            ((hdrop depth rest).2 (by omega) (by omega)).2) Json.object
      · rw [unifyLineEnds_cons (by decide)] at hother ⊢
        rw [List.length_cons] at hsteps hother
        cases depth with
        | zero => exact .fault _ _ _
        | succ depth =>
          rw [readValue_array, readValue_array]
          exact Agree.map (agree_readParts (by decide)
            ((hdrop depth rest).2 (by omega) (by omega)).1) Json.array
      · have hends := not_mem_of_mem_openings (mem_openings_of_mem_literals hliteral)
        rw [unifyLineEnds_append hends.1, readValue_literal hliteral, readValue_literal hliteral]
        exact .read _ rest
      · rw [readValue_number hnumber, readValue_number fun front hfront hprefix => ?_]
        · exact agree_readNumber text
        · obtain ⟨rest, hrest⟩ := hprefix
          obtain ⟨more, rfl, -⟩ :=
            exists_of_unifyLineEnds_eq_append _ (not_mem_of_mem_openings hfront).2 hrest.symm
          exact hnumber front hfront (List.prefix_append front more)
    case items =>
      rw [readItems_succ, readItems_succ]
      refine ((ih other depth text).1 (by omega) (by omega)).bind fun item rest hleft hright => ?_
      have hrest := (leavesLess_readValue steps depth text).1 item rest hleft
      have hrest' := (leavesLess_readValue other depth _).1 item _ hright
      refine (agree_readOthers (by decide) fun after hafter hafter' => ?_).map (item :: ·)
      exact ((hdrop depth after).2 (by omega) (by omega)).1
    case fields =>
      rw [readFields_succ, readFields_succ]
      refine (agree_readKey text).bind fun key rest hleft hright => ?_
      have hrest := leavesLess_readKey text key rest hleft
      have hrest' := leavesLess_readKey _ key _ hright
      refine (agree_readFieldValue fun after hafter hafter' =>
        (hdrop depth after).1 (by omega) (by omega)).bind fun value left hleft hright => ?_
      have hless := leavesLess_readFieldValue
        (fun text => (leavesLess_readValue steps depth text).1) rest value left hleft
      have hless' := leavesLess_readFieldValue
        (fun text => (leavesLess_readValue other depth text).1) _ value _ hright
      refine (agree_readOthers (by decide) fun after hafter hafter' => ?_).map ((key, value) :: ·)
      exact ((hdrop depth after).2 (by omega) (by omega)).2

/-! ## Texts -/

/-- How lines end does not matter to the reader of a whole text. -/
theorem readAll_unifyLineEnds (depth : Nat) (text : List Char) :
    (readAll depth (unifyLineEnds text)).mapError Fault.defect =
      (readAll depth text).mapError Fault.defect := by
  have hmark : (unifyLineEnds text).head? = some (Char.ofNat 0xFEFF) ↔
      text.head? = some (Char.ofNat 0xFEFF) := by
    rcases unifyLineEnds_cases text with rfl | ⟨rest, more, rfl, h⟩ | ⟨c, rest, -, rfl, h⟩
    · rfl
    · rw [h, List.head?_cons, List.head?_cons]
      decide
    · rw [h]
      rfl
  unfold readAll
  simp only [hmark]
  split
  · rfl
  have hshort := length_dropBlanks_le text
  have hshort' := length_dropBlanks_le (unifyLineEnds text)
  rw [dropBlanks_unifyLineEnds] at hshort' ⊢
  have hvalue := (agree_readValue (2 * text.length + 1) (2 * (unifyLineEnds text).length + 1)
    depth (dropBlanks text)).1 (by omega) (by omega)
  generalize readValue (2 * (unifyLineEnds text).length + 1) depth
    (unifyLineEnds (dropBlanks text)) = other at hvalue ⊢
  generalize readValue (2 * text.length + 1) depth (dropBlanks text) = answer at hvalue ⊢
  cases hvalue with
  | fault defect rest other => rfl
  | read value rest =>
    simp only [bind, Except.bind, dropBlanks_unifyLineEnds]
    rcases unifyLineEnds_cases (dropBlanks rest) with
      hblanks | ⟨left, more, hblanks, hmore⟩ | ⟨c, left, -, hblanks, hmore⟩
    · rw [hblanks]
      rfl
    · rw [hmore, hblanks]
      rfl
    · rw [hmore, hblanks]
      rfl

/-- **How lines end does not matter in JSON**: a text with unified line ends is read as the same
value, or has the same defect. -/
theorem read_unifyLineEnds (text : String) (depth : Nat) :
    (read (String.ofList (unifyLineEnds text.toList)) depth).mapError Prod.fst =
      (read text depth).mapError Prod.fst := by
  have hread : ∀ text : String, (read text depth).mapError Prod.fst =
      (readAll depth text.toList).mapError Fault.defect := by
    intro text
    unfold read
    cases readAll depth text.toList <;> rfl
  rw [hread, hread, String.toList_ofList, readAll_unifyLineEnds]

/-- Another name for its fault does not change whether an answer is a value. -/
theorem mapError_eq_ok_iff {ε ε' α : Type} {f : ε → ε'} {answer : Except ε α} {a : α} :
    answer.mapError f = .ok a ↔ answer = .ok a := by
  cases answer <;> simp [Except.mapError]

/-- Another name for its fault does not change whether an answer is a fault. -/
theorem mapError_eq_error_iff {ε ε' α : Type} {f : ε → ε'} {answer : Except ε α} {e : ε'} :
    answer.mapError f = .error e ↔ ∃ fault, answer = .error fault ∧ f fault = e := by
  cases answer <;> simp [Except.mapError]

/-- A text with unified line ends is read as a value if the text is. -/
theorem read_unifyLineEnds_eq_ok_iff {text : String} {depth : Nat} {value : Json} :
    read (String.ofList (unifyLineEnds text.toList)) depth = .ok value ↔
      read text depth = .ok value := by
  rw [← mapError_eq_ok_iff (f := Prod.fst), read_unifyLineEnds, mapError_eq_ok_iff]

/-- A text with unified line ends has the defect of the text, maybe on another line. -/
theorem exists_read_unifyLineEnds_eq_error_iff {text : String} {depth : Nat} {defect : Defect} :
    (∃ line, read (String.ofList (unifyLineEnds text.toList)) depth = .error (defect, line)) ↔
      ∃ line, read text depth = .error (defect, line) := by
  have hline : ∀ answer : Except (Defect × Nat) Json, (∃ line, answer = .error (defect, line)) ↔
      answer.mapError Prod.fst = .error defect := by
    intro answer
    rw [mapError_eq_error_iff]
    exact ⟨fun ⟨line, h⟩ => ⟨_, h, rfl⟩, fun ⟨⟨_, line⟩, h, hdefect⟩ => ⟨line, hdefect ▸ h⟩⟩
  rw [hline, hline, read_unifyLineEnds]

end Json

end FrancaLint
