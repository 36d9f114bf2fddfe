import FrancaLint.Proofs.Source.Words

/-! # Longest matches

What is found at the start of a text is the longest match of the terminals that are looked for, and
of matches of the same length that of a fixed spelling. No two terminals tie beyond that, so that
the order in which they are looked for does not matter.

* `longest?_spec`: the match that is found, against the other ones.
* `longest?_congr`: only which terminals are looked for and how long their matches are matters.
* `wordLength_append_congr` and `longest?_append_congr`: a match that ends in front of some place of
  a text does not depend on what stands behind that place, if it starts apart from words: with
  layout or with a quote. -/

namespace FrancaLint.Source

/-! ## The chosen match -/

/-- A match is **at most** another one: it is shorter, or of the same length and no fixed spelling
against something else. -/
def AtMost (other best : Terminal × Nat) : Prop :=
  other.2 < best.2 ∨ other.2 = best.2 ∧ (other.1.isFixed = true → best.1.isFixed = true)

/-- Every match is at most itself. -/
theorem AtMost.refl (candidate : Terminal × Nat) : AtMost candidate candidate :=
  Or.inr ⟨rfl, id⟩

/-- What is at most something that is at most a third match is at most that match. -/
theorem AtMost.trans {first second third : Terminal × Nat} (h : AtMost first second)
    (h' : AtMost second third) : AtMost first third := by
  unfold AtMost at *
  rcases h with hlt | ⟨heq, hfixed⟩
  · left
    omega
  · rcases h' with hlt' | ⟨heq', hfixed'⟩
    · left
      omega
    · exact Or.inr ⟨heq.trans heq', hfixed' ∘ hfixed⟩

/-- Matches that are at most each other have one length, and both or none have a fixed spelling. -/
theorem AtMost.antisymm {first second : Terminal × Nat} (h : AtMost first second)
    (h' : AtMost second first) : second.2 = first.2 ∧ second.1.isFixed = first.1.isFixed := by
  rcases h with hlt | ⟨heq, hfixed⟩ <;> rcases h' with hlt' | ⟨heq', hfixed'⟩
  · omega
  · omega
  · omega
  · exact ⟨heq', Bool.eq_iff_iff.mpr ⟨hfixed', hfixed⟩⟩

/-- Both of two matches are at most the preferred one. -/
theorem atMost_preferred (best other : Terminal × Nat) :
    AtMost best (preferred best other) ∧ AtMost other (preferred best other) := by
  unfold preferred
  by_cases h : best.2 < other.2 ∨ (best.2 = other.2 ∧ other.1.isFixed = true)
  · rw [if_pos h]
    exact ⟨h.imp_right fun h => ⟨h.1, fun _ => h.2⟩, AtMost.refl _⟩
  · rw [if_neg h]
    rw [not_or, not_and] at h
    refine ⟨AtMost.refl _, ?_⟩
    by_cases heq : best.2 = other.2
    · exact Or.inr ⟨heq.symm, fun hfixed => absurd hfixed (h.2 heq)⟩
    · left
      omega

/-- The preferred one of several matches is one of them, and all are at most that one. -/
theorem foldl_preferred_spec (best : Terminal × Nat) (others : List (Terminal × Nat)) :
    others.foldl preferred best ∈ best :: others ∧
      ∀ other ∈ best :: others, AtMost other (others.foldl preferred best) := by
  induction others generalizing best with
  | nil => simp [AtMost.refl]
  | cons next others ih =>
    rw [List.foldl_cons]
    obtain ⟨hmem, hmost⟩ := ih (preferred best next)
    obtain ⟨hbest, hnext⟩ := atMost_preferred best next
    rw [List.forall_mem_cons] at hmost
    constructor
    · rcases List.mem_cons.mp hmem with heq | hmem
      · rw [heq]
        unfold preferred
        split <;> simp
      · exact List.mem_cons_of_mem _ (List.mem_cons_of_mem _ hmem)
    · simp only [List.forall_mem_cons]
      exact ⟨hbest.trans hmost.1, hnext.trans hmost.1, hmost.2⟩

/-- The match that is found belongs to a terminal that is looked for, and those of the others are at
most that one. -/
theorem longest?_spec {allowed : List Terminal} {text : List Char} {terminal : Terminal}
    {length : Nat} (h : longest? allowed text = some (terminal, length)) :
    terminal ∈ allowed ∧ terminal.wordLength text = length ∧ 0 < length ∧
      ∀ other ∈ allowed, AtMost (other, other.wordLength text) (terminal, length) := by
  have hpos := pos_of_longest? h
  unfold longest? at h
  obtain ⟨hmem, hmost⟩ :=
    foldl_preferred_spec (.name, 0) (allowed.map fun t => (t, t.wordLength text))
  dsimp only at h
  split at h
  · cases h
  · rw [Option.some.inj h] at hmem hmost
    rcases List.mem_cons.mp hmem with heq | hmem
    · obtain ⟨-, rfl⟩ := Prod.mk.inj heq
      exact absurd hpos (Nat.lt_irrefl 0)
    · obtain ⟨found, hfound, heq⟩ := List.mem_map.mp hmem
      obtain ⟨rfl, rfl⟩ := Prod.mk.inj heq
      refine ⟨hfound, rfl, hpos, fun other hother => ?_⟩
      exact hmost _ (List.mem_cons_of_mem _ (List.mem_map.mpr ⟨other, hother, rfl⟩))

/-- Where nothing is found, no terminal that is looked for has a match. -/
theorem wordLength_of_longest?_eq_none {allowed : List Terminal} {text : List Char}
    (h : longest? allowed text = none) {terminal : Terminal} (hmem : terminal ∈ allowed) :
    terminal.wordLength text = 0 := by
  unfold longest? at h
  obtain ⟨-, hmost⟩ :=
    foldl_preferred_spec (.name, 0) (allowed.map fun t => (t, t.wordLength text))
  dsimp only at h
  split at h
  · next hzero =>
    have hterminal := hmost (terminal, terminal.wordLength text)
      (List.mem_cons_of_mem _ (List.mem_map.mpr ⟨terminal, hmem, rfl⟩))
    unfold AtMost at hterminal
    rw [hzero] at hterminal
    omega
  · cases h

/-! ## Matches lie in their text -/

/-- Digits lie in their text. -/
theorem digitsLength_le (text : List Char) : digitsLength text ≤ text.length := by
  cases text with
  | nil => exact Nat.le_refl 0
  | cons c rest =>
    have hrest := (List.takeWhile_sublist isNamePart (l := rest)).length_le
    rw [digitsLength, List.length_cons]
    split <;> omega

/-- A quoted text lies in its text. -/
theorem stringTailLength?_le {text : List Char} {length : Nat}
    (h : stringTailLength? text = some length) : length ≤ text.length := by
  fun_induction stringTailLength? text generalizing length with
  | case1 => cases h
  | case2 =>
    obtain rfl := Option.some.inj h
    rw [List.length_cons]
    omega
  | case3 => cases h
  | case4 c rest hline ih =>
    obtain ⟨inner, hinner, rfl⟩ := Option.map_eq_some_iff.mp h
    have hle := ih hinner
    rw [List.length_cons, List.length_cons]
    omega
  | case5 => cases h
  | case6 c rest hquote hbackslash hline ih =>
    obtain ⟨inner, hinner, rfl⟩ := Option.map_eq_some_iff.mp h
    have hle := ih hinner
    rw [List.length_cons]
    omega

/-- A match lies in its text. -/
theorem wordLength_le (terminal : Terminal) (text : List Char) :
    terminal.wordLength text ≤ text.length := by
  cases terminal with
  | fixed spelling =>
    rw [Terminal.wordLength]
    split
    · next h => exact (List.isPrefixOf_iff_prefix.mp h).length_le
    · exact Nat.zero_le _
  | name =>
    cases text with
    | nil => exact Nat.le_refl 0
    | cons c rest =>
      have hrest := (List.takeWhile_sublist isNamePart (l := rest)).length_le
      rw [Terminal.wordLength, nameLength, List.length_cons]
      split <;> omega
  | number =>
    rw [Terminal.wordLength]
    unfold numberLength
    split
    · next rest =>
      have hrest := digitsLength_le rest
      rw [List.length_cons]
      split <;> omega
    · exact digitsLength_le text
  | string =>
    rw [Terminal.wordLength]
    unfold stringLength
    split
    · next rest =>
      rw [List.length_cons]
      cases htail : stringTailLength? rest with
      | none => exact Nat.zero_le _
      | some length =>
        have hle := stringTailLength?_le htail
        rw [Option.map_some, Option.getD_some]
        omega
    · exact Nat.zero_le _

/-- Where a terminal has a match, there is some text. -/
theorem ne_nil_of_wordLength_pos {terminal : Terminal} {text : List Char}
    (h : 0 < terminal.wordLength text) : text ≠ [] := by
  rintro rfl
  exact absurd h (Nat.not_lt.mpr (wordLength_le terminal []))

/-! ## No ties -/

/-- The character with which a name, a number or a quoted text starts. -/
theorem isHead_of_wordLength_pos {terminal : Terminal} {c : Char} {cs : List Char}
    (hfixed : terminal.isFixed = false) (h : 0 < terminal.wordLength (c :: cs)) :
    IsHead terminal c := by
  cases terminal with
  | fixed spelling => cases hfixed
  | name =>
    by_contra hstart
    have hzero := nameLength_eq_zero (Bool.eq_false_iff.mpr hstart) cs
    exact absurd h (by rw [Terminal.wordLength, hzero]; exact Nat.lt_irrefl 0)
  | number =>
    by_contra hstart
    unfold IsHead at hstart
    rw [not_or] at hstart
    have hzero := numberLength_eq_zero hstart.1 (Bool.eq_false_iff.mpr hstart.2) cs
    exact absurd h (by rw [Terminal.wordLength, hzero]; exact Nat.lt_irrefl 0)
  | string =>
    by_contra hstart
    have hzero := stringLength_eq_zero hstart cs
    exact absurd h (by rw [Terminal.wordLength, hzero]; exact Nat.lt_irrefl 0)

/-- Of the terminals without a fixed spelling, a character starts words of one only. -/
theorem eq_of_isHead {terminal other : Terminal} {c : Char} (hfixed : terminal.isFixed = false)
    (hfixed' : other.isFixed = false) (h : IsHead terminal c) (h' : IsHead other c) :
    terminal = other := by
  have hname : isNameStart c = true → ¬ (c = '-' ∨ c.isDigit = true) ∧ c ≠ '"' := by
    intro hstart
    obtain ⟨hsign, hdigit, hquote⟩ := apart_of_isNameStart hstart
    rw [hdigit]
    exact ⟨by simp [hsign], hquote⟩
  have hnumber : ¬ ('"' = '-' ∨ '"'.isDigit = true) := by decide
  cases terminal with
  | fixed spelling => cases hfixed
  | name =>
    cases other with
    | fixed spelling => cases hfixed'
    | name => rfl
    | number => exact absurd h' (hname h).1
    | string => exact absurd h' (hname h).2
  | number =>
    cases other with
    | fixed spelling => cases hfixed'
    | name => exact absurd h (hname h').1
    | number => rfl
    | string =>
      obtain rfl : c = '"' := h'
      exact absurd h hnumber
  | string =>
    obtain rfl : c = '"' := h
    cases other with
    | fixed spelling => cases hfixed'
    | name => exact absurd rfl (hname h').2
    | number => exact absurd h' hnumber
    | string => rfl

/-- Terminals that both have a match of the same length are the same, if both or none have a fixed
spelling. -/
theorem eq_of_wordLength_eq {terminal other : Terminal} {text : List Char}
    (hpos : 0 < terminal.wordLength text)
    (hlength : other.wordLength text = terminal.wordLength text)
    (hfixed : other.isFixed = terminal.isFixed) : terminal = other := by
  cases hterminal : terminal.isFixed with
  | false =>
    rw [hterminal] at hfixed
    cases text with
    | nil => exact absurd rfl (ne_nil_of_wordLength_pos hpos)
    | cons c cs =>
      have hother : 0 < other.wordLength (c :: cs) := by rwa [hlength]
      exact eq_of_isHead hterminal hfixed (isHead_of_wordLength_pos hterminal hpos)
        (isHead_of_wordLength_pos hfixed hother)
  | true =>
    rw [hterminal] at hfixed
    cases terminal <;> cases hterminal
    cases other <;> cases hfixed
    next spelling spelling' =>
    -- both spellings start the text
    have hprefix : spelling.toList <+: text := by
      by_contra hnot
      rw [← List.isPrefixOf_iff_prefix] at hnot
      rw [Terminal.wordLength, if_neg hnot] at hpos
      exact Nat.lt_irrefl 0 hpos
    have hprefix' : spelling'.toList <+: text := by
      by_contra hnot
      rw [← List.isPrefixOf_iff_prefix] at hnot
      rw [← hlength, Terminal.wordLength, if_neg hnot] at hpos
      exact Nat.lt_irrefl 0 hpos
    rw [Terminal.wordLength, Terminal.wordLength, if_pos (List.isPrefixOf_iff_prefix.mpr hprefix),
      if_pos (List.isPrefixOf_iff_prefix.mpr hprefix')] at hlength
    have hsame := (List.prefix_of_prefix_length_le hprefix hprefix' hlength.ge).eq_of_length
      hlength.symm
    rw [String.toList_inj.mp hsame]

/-- What is found depends only on which terminals are looked for and on the lengths of their
matches. -/
theorem longest?_congr {allowed allowed' : List Terminal} {text text' : List Char}
    (hmem : ∀ t, t ∈ allowed ↔ t ∈ allowed')
    (hlength : ∀ t ∈ allowed, t.wordLength text' = t.wordLength text) {terminal : Terminal}
    {length : Nat} (h : longest? allowed text = some (terminal, length)) :
    longest? allowed' text' = some (terminal, length) := by
  obtain ⟨hallowed, rfl, hpos, hmost⟩ := longest?_spec h
  cases hfound : longest? allowed' text' with
  | none =>
    have hzero := wordLength_of_longest?_eq_none hfound ((hmem terminal).mp hallowed)
    rw [hlength terminal hallowed] at hzero
    omega
  | some found =>
    obtain ⟨other, length'⟩ := found
    obtain ⟨hallowed', hother, -, hmost'⟩ := longest?_spec hfound
    have hother' := (hmem other).mpr hallowed'
    rw [hlength other hother'] at hother
    -- each of both matches is at most the other one
    have hmost' := hmost' terminal ((hmem terminal).mp hallowed)
    rw [hlength terminal hallowed, ← hother] at hmost'
    obtain ⟨hsame, hfixed⟩ := hmost'.antisymm (hmost other hother')
    rw [eq_of_wordLength_eq hpos hsame hfixed, ← hother]

/-! ## Matches and what stands behind them -/

/-- The text starts with a character with which layout starts. -/
def StartsLayout (text : List Char) : Prop :=
  ∃ c more, text = c :: more ∧ (isBlank c = true ∨ c = '/' ∨ c = '<')

/-- The text starts **apart**: with a character that stands in no word but a quoted one. -/
def StartsApart (text : List Char) : Prop :=
  ∃ c more, text = c :: more ∧ isNamePart c = false ∧ c.isDigit = false ∧
    ∀ spelling ∈ keywords ++ marks, c ∉ spelling.toList

/-- The characters with which layout starts, and the quote. -/
def apartChars : List Char :=
  ['"', '/', '<', ' ', '\t', '\x0c', '\r', '\n']

/-- These characters stand in no word but a quoted one. -/
theorem startsApart_cons {c : Char} (h : c ∈ apartChars) (more : List Char) :
    StartsApart (c :: more) := by
  have hclasses : apartChars.all (fun d => !isNamePart d && !d.isDigit) = true := by decide
  have hspellings : (keywords ++ marks).all (fun spelling =>
      apartChars.all fun d => !spelling.toList.contains d) = true := by
    decide
  have hclass : isNamePart c = false ∧ c.isDigit = false := by
    simpa using List.all_eq_true.mp hclasses c h
  refine ⟨c, more, rfl, hclass.1, hclass.2, fun spelling hspelling => ?_⟩
  simpa using List.all_eq_true.mp (List.all_eq_true.mp hspellings spelling hspelling) c h

/-- Layout starts apart from words. -/
theorem StartsLayout.startsApart {text : List Char} (h : StartsLayout text) : StartsApart text := by
  obtain ⟨c, more, rfl, hc⟩ := h
  refine startsApart_cons ?_ more
  simp only [isBlank, Bool.or_eq_true, beq_iff_eq] at hc
  rcases hc with ((((rfl | rfl) | rfl) | rfl) | rfl) | rfl | rfl <;> decide

/-- Characters that are taken from the start of a text come from the front part alone if they are no
more than that has. -/
theorem takeWhile_append_of_length_le {p : Char → Bool} {front back : List Char}
    (h : ((front ++ back).takeWhile p).length ≤ front.length) :
    (front ++ back).takeWhile p = front.takeWhile p := by
  rw [List.takeWhile_append] at h ⊢
  by_cases hall : (front.takeWhile p).length = front.length
  · rw [if_pos hall, List.length_append] at h
    have hnil : back.takeWhile p = [] := List.length_eq_zero_iff.mp (by omega)
    rw [if_pos hall, hnil, List.append_nil]
    exact (List.takeWhile_sublist p).eq_of_length hall |>.symm
  · rw [if_neg hall]

/-- What starts apart from words is not taken. -/
theorem takeWhile_append_of_startsApart {p : Char → Bool}
    (hp : ∀ c, isNamePart c = false → p c = false) {front back : List Char}
    (h : StartsApart back) : (front ++ back).takeWhile p = front.takeWhile p := by
  obtain ⟨c, more, rfl, hc, -⟩ := h
  have hstop := hp c hc
  rw [List.takeWhile_append, List.takeWhile_cons, hstop]
  split
  · next hall => simp [(List.takeWhile_sublist p).eq_of_length hall]
  · rfl

section Behind

variable {front back back' : List Char} (hfront : front ≠ []) (hback : StartsApart back')
include hfront hback

/-- The name at the start of a text. -/
theorem nameLength_append_congr (h : nameLength (front ++ back) ≤ front.length) :
    nameLength (front ++ back') = nameLength (front ++ back) := by
  obtain ⟨c, cs, rfl⟩ := List.exists_cons_of_ne_nil hfront
  rw [List.cons_append, List.cons_append, nameLength, nameLength] at *
  by_cases hstart : isNameStart c = true
  · rw [if_pos hstart, List.length_cons] at h
    rw [if_pos hstart, if_pos hstart, takeWhile_append_of_startsApart (fun _ => id) hback,
      takeWhile_append_of_length_le (by omega)]
  · rw [if_neg hstart, if_neg hstart]

/-- The unsigned number at the start of a text. -/
theorem digitsLength_append_congr (h : digitsLength (front ++ back) ≤ front.length) :
    digitsLength (front ++ back') = digitsLength (front ++ back) := by
  obtain ⟨c, cs, rfl⟩ := List.exists_cons_of_ne_nil hfront
  rw [List.cons_append, List.cons_append, digitsLength, digitsLength] at *
  by_cases hstart : c.isDigit = true
  · rw [if_pos hstart, List.length_cons] at h
    rw [if_pos hstart, if_pos hstart, takeWhile_append_of_startsApart (fun _ => id) hback,
      takeWhile_append_of_length_le (by omega)]
  · rw [if_neg hstart, if_neg hstart]

/-- The number at the start of a text. -/
theorem numberLength_append_congr (h : numberLength (front ++ back) ≤ front.length) :
    numberLength (front ++ back') = numberLength (front ++ back) := by
  obtain ⟨c, cs, rfl⟩ := List.exists_cons_of_ne_nil hfront
  by_cases hsign : c = '-'
  · subst hsign
    rw [List.cons_append, List.cons_append, numberLength, numberLength] at *
    have hdigits : digitsLength (cs ++ back') = digitsLength (cs ++ back) := by
      by_cases hnil : cs = []
      · -- a sign alone is no number, and what follows has no digits
        subst hnil
        obtain ⟨d, more, rfl, -, hd, -⟩ := hback
        have hzero : digitsLength (d :: more) = 0 := by
          rw [digitsLength, hd]
          rfl
        rw [List.length_singleton, List.nil_append] at h
        rw [List.nil_append, List.nil_append, hzero]
        split at h <;> omega
      · refine digitsLength_append_congr hnil hback ?_
        rw [List.length_cons] at h
        split at h <;> omega
    rw [hdigits]
  · have hplain : ∀ more, numberLength (c :: more) = digitsLength (c :: more) := by
      intro more
      simp [numberLength, hsign]
    rw [List.cons_append, List.cons_append, hplain] at *
    rw [hplain]
    exact digitsLength_append_congr hfront hback h

omit hfront in
/-- The spelling at the start of a text. -/
theorem isPrefixOf_append_congr {spelling : String} (hmem : spelling ∈ keywords ++ marks)
    (h : (Terminal.fixed spelling).wordLength (front ++ back) ≤ front.length) :
    spelling.toList <+: front ++ back' ↔ spelling.toList <+: front ++ back := by
  constructor
  · intro hprefix
    rcases List.prefix_or_prefix_of_prefix hprefix (List.prefix_append front back') with
      hpart | ⟨more, hmore⟩
    · exact hpart.trans (List.prefix_append _ _)
    · -- a longer spelling would hold the first character of what follows
      rw [← hmore] at hprefix ⊢
      cases more with
      | nil => simp
      | cons c more =>
        obtain ⟨after, hafter⟩ := (List.prefix_append_right_inj front).mp hprefix
        obtain ⟨d, rest, rfl, -, -, hd⟩ := hback
        obtain ⟨rfl, -⟩ := List.cons.inj hafter
        refine absurd ?_ (hd spelling hmem)
        rw [← hmore]
        exact List.mem_append_right _ List.mem_cons_self
  · intro hprefix
    rw [Terminal.wordLength, if_pos (List.isPrefixOf_iff_prefix.mpr hprefix)] at h
    exact (List.prefix_of_prefix_length_le hprefix (List.prefix_append front back) h).trans
      (List.prefix_append _ _)

end Behind

/-- A quoted text goes on at least to its closing quote. -/
theorem pos_of_stringTailLength? {text : List Char} {length : Nat}
    (h : stringTailLength? text = some length) : 0 < length := by
  fun_induction stringTailLength? text generalizing length <;> simp at h <;> omega

/-- A backslash takes a character with it. -/
theorem two_le_of_stringTailLength?_backslash {text : List Char} {length : Nat}
    (h : stringTailLength? ('\\' :: text) = some length) : 2 ≤ length := by
  cases text with
  | nil => simp [stringTailLength?] at h
  | cons c rest =>
    rw [stringTailLength?] at h
    split at h
    · cases h
    · obtain ⟨inner, -, rfl⟩ := Option.map_eq_some_iff.mp h
      omega

/-- A quoted text that is closed in the front part of a text ends there, whatever follows. -/
theorem stringTailLength?_append {front back : List Char} (back' : List Char) {length : Nat}
    (h : stringTailLength? (front ++ back) = some length) (hle : length ≤ front.length) :
    stringTailLength? (front ++ back') = some length := by
  fun_induction stringTailLength? front generalizing length with
  | case1 =>
    have hpos := pos_of_stringTailLength? h
    rw [List.length_nil] at hle
    omega
  | case2 => exact h
  | case3 => simp [stringTailLength?] at h
  | case4 c rest hline ih =>
    have hstep : ∀ more, stringTailLength? ('\\' :: c :: rest ++ more) =
        (stringTailLength? (rest ++ more)).map (· + 2) := by
      intro more
      simp [stringTailLength?, hline]
    rw [hstep] at h ⊢
    obtain ⟨inner, hinner, rfl⟩ := Option.map_eq_some_iff.mp h
    rw [List.length_cons, List.length_cons] at hle
    rw [ih hinner (by omega)]
    rfl
  | case5 => simp [stringTailLength?] at h
  | case6 c rest hquote hbackslash hline ih =>
    by_cases hescape : c = '\\'
    · -- a backslash at the end of the front part takes a character behind it
      subst hescape
      obtain rfl : rest = [] := List.eq_nil_iff_forall_not_mem.mpr fun d hd => by
        obtain ⟨e, more, rfl⟩ := List.exists_cons_of_ne_nil (List.ne_nil_of_mem hd)
        exact hbackslash e more rfl rfl
      have htwo := two_le_of_stringTailLength?_backslash h
      rw [List.length_singleton] at hle
      omega
    · have hstep : ∀ more, stringTailLength? (c :: rest ++ more) =
          (stringTailLength? (rest ++ more)).map (· + 1) := by
        intro more
        rw [List.cons_append, stringTailLength?, if_neg hline]
        · exact hquote
        · exact fun _ _ heq => absurd heq hescape
      rw [hstep] at h ⊢
      obtain ⟨inner, hinner, rfl⟩ := Option.map_eq_some_iff.mp h
      rw [List.length_cons] at hle
      rw [ih hinner (by omega)]
      rfl

/-- A match that ends in the front part of a text does not change when something else follows that
starts apart from words. Only a quote in front must have been closed there: what follows may hold
another one. -/
theorem wordLength_append_congr {terminal : Terminal} (hmem : terminal ∈ vocabulary)
    {front back back' : List Char} (hfront : front ≠ []) (hback : StartsApart back')
    (hle : terminal.wordLength (front ++ back) ≤ front.length)
    (hclosed : front.head? = some '"' → terminal = .string →
      0 < terminal.wordLength (front ++ back)) :
    terminal.wordLength (front ++ back') = terminal.wordLength (front ++ back) := by
  cases terminal with
  | fixed spelling =>
    have hspelling : spelling ∈ keywords ++ marks := by simpa [vocabulary] using hmem
    have hiff := isPrefixOf_append_congr hback hspelling hle
    rw [← List.isPrefixOf_iff_prefix, ← List.isPrefixOf_iff_prefix] at hiff
    rw [Terminal.wordLength, Terminal.wordLength, Bool.eq_iff_iff.mpr hiff]
  | name => exact nameLength_append_congr hfront hback hle
  | number => exact numberLength_append_congr hfront hback hle
  | string =>
    obtain ⟨c, cs, rfl⟩ := List.exists_cons_of_ne_nil hfront
    by_cases hquote : c = '"'
    · subst hquote
      have hpos := hclosed rfl rfl
      simp only [Terminal.wordLength, List.cons_append, stringLength] at hle hpos ⊢
      cases htail : stringTailLength? (cs ++ back) with
      | none =>
        rw [htail] at hpos
        exact absurd hpos (Nat.lt_irrefl 0)
      | some length =>
        rw [htail, Option.map_some, Option.getD_some, List.length_cons] at hle
        rw [stringTailLength?_append back' htail (by omega)]
    · rw [Terminal.wordLength, Terminal.wordLength, List.cons_append, List.cons_append,
        stringLength_eq_zero hquote, stringLength_eq_zero hquote]

/-- A word of the language starts with a character that starts words of its terminal. -/
theorem isHead_of_mem_vocabulary {terminal : Terminal} (hmem : terminal ∈ vocabulary) {c : Char}
    {cs : List Char} (h : 0 < terminal.wordLength (c :: cs)) : IsHead terminal c := by
  cases terminal with
  | fixed spelling =>
    have hspelling : spelling ∈ keywords ++ marks := by simpa [vocabulary] using hmem
    obtain ⟨d, rest, hlist, hstart, -⟩ := exists_cons_of_mem_spellings hspelling
    by_cases hprefix : spelling.toList.isPrefixOf (c :: cs) = true
    · rw [List.isPrefixOf_iff_prefix, hlist, List.cons_prefix_cons] at hprefix
      rwa [IsHead, ← hprefix.1]
    · rw [Terminal.wordLength, if_neg hprefix] at h
      exact absurd h (Nat.lt_irrefl 0)
  | name => exact isHead_of_wordLength_pos rfl h
  | number => exact isHead_of_wordLength_pos rfl h
  | string => exact isHead_of_wordLength_pos rfl h

/-- Words that start with a quote are quoted texts. -/
theorem eq_string_of_isHead_quote {terminal : Terminal} (h : IsHead terminal '"') :
    terminal = .string := by
  cases terminal with
  | fixed spelling =>
    have hstart : ¬ (isNameStart '"' || isMarkStart '"') = true := by decide
    exact absurd h hstart
  | name =>
    have hstart : ¬ isNameStart '"' = true := by decide
    exact absurd h hstart
  | number =>
    have hstart : ¬ ('"' = '-' ∨ '"'.isDigit = true) := by decide
    exact absurd h hstart
  | string => rfl

/-- A word does not start layout. -/
theorem not_startsLayout_of_isHead {terminal : Terminal} {c : Char} (h : IsHead terminal c)
    (cs : List Char) : ¬ StartsLayout (c :: cs) := by
  obtain ⟨hslash, hless, hblank⟩ := not_layout_of_isHead h
  rintro ⟨d, more, heq, hd⟩
  obtain ⟨rfl, -⟩ := List.cons.inj heq
  rw [hblank] at hd
  rcases hd with hd | hd | hd
  · cases hd
  · exact hslash hd
  · exact hless hd

/-- What is found at the start of a text does not change when something else follows that starts
apart from words. -/
theorem longest?_append_congr {allowed : List Terminal} (hallowed : allowed ⊆ vocabulary)
    {front back back' : List Char} {terminal : Terminal} {length : Nat}
    (h : longest? allowed (front ++ back) = some (terminal, length)) (hle : length ≤ front.length)
    (hback : StartsApart back') :
    longest? allowed (front ++ back') = some (terminal, length) := by
  obtain ⟨hmem, hlength, hpos, hmost⟩ := longest?_spec h
  have hfront : front ≠ [] := List.ne_nil_of_length_pos (by omega)
  refine longest?_congr (fun _ => Iff.rfl) (fun other hother => ?_) h
  have hother_le : other.wordLength (front ++ back) ≤ front.length := by
    have hatMost := hmost other hother
    unfold AtMost at hatMost
    simp only at hatMost
    omega
  refine wordLength_append_congr (hallowed hother) hfront hback hother_le ?_
  -- a quote in front is the start of the quoted text that has been found
  rintro hquote rfl
  obtain ⟨c, cs, rfl⟩ := List.exists_cons_of_ne_nil hfront
  obtain rfl : c = '"' := Option.some.inj hquote
  rw [List.cons_append] at hlength ⊢
  have hhead := isHead_of_mem_vocabulary (hallowed hmem) (hlength ▸ hpos)
  rw [← eq_string_of_isHead_quote hhead, hlength]
  exact hpos

end FrancaLint.Source
