import FrancaLint.Source.Quoted
import FrancaLint.Source.Scan
import Mathlib.Data.List.TakeWhile

/-! # Words between blanks

A word that is followed by a blank or by nothing is found again: whatever terminals are looked for,
its own one has the longest match, or is a fixed spelling among matches of the same length.

* `Spelled`, the words of the language, with the spellings of `keywords` and `marks`.
* `longest?_eq_some`, when a terminal is chosen, and `longest?_append_of_spelled` for a word.
* `dropLayout_append_of_spelled`: a word is not taken for layout. -/

namespace FrancaLint.Source

/-! ## Spellings -/

/-- The keywords of the language. -/
def keywords : List String :=
  ["package", "import", "model", "from", "typeCollection", "interface", "extends", "manages",
   "version", "major", "minor", "attribute", "readonly", "noSubscriptions", "noRead", "method",
   "fireAndForget", "in", "out", "error", "broadcast", "selective", "public", "enumeration", "map",
   "to", "typedef", "is", "struct", "polymorphic", "union", "array", "of"]

/-- The punctuation marks of the language. -/
def marks : List String :=
  [".", ".*", ",", "=", "[]", "\x7b", "\x7d"]

/-- The terminals of the language. -/
def vocabulary : List Terminal :=
  .name :: .number :: .string :: (keywords ++ marks).map .fixed

/-- The characters are those of a name. -/
def isName : List Char → Bool
  | c :: rest => isNameStart c && rest.all isNamePart
  | [] => false

/-- A name that is no keyword. -/
def IsIdentifier (name : String) : Prop :=
  isName name.toList = true ∧ name ∉ keywords

/-- The characters are decimal digits, and there are some. -/
def isDigits : List Char → Bool
  | c :: rest => c.isDigit && rest.all Char.isDigit
  | [] => false

/-- The characters are decimal digits, possibly behind a sign. -/
def isNumeral : List Char → Bool
  | '-' :: rest => isDigits rest
  | text => isDigits text

/-- The quoted form of a text. -/
def quoted (text : List Char) : List Char :=
  '"' :: (escape text ++ ['"'])

/-- A terminal with the characters of a word. -/
abbrev Word :=
  Terminal × List Char

/-- The word of a token. -/
def Token.word (token : Token) : Word :=
  (token.terminal, token.lexeme)

/-- The characters of a word are what its terminal stands for. -/
def Spelled : Word → Prop
  | (.fixed spelling, lexeme) => spelling ∈ keywords ++ marks ∧ lexeme = spelling.toList
  | (.name, lexeme) => IsIdentifier (String.ofList lexeme)
  | (.number, lexeme) => isNumeral lexeme = true
  | (.string, lexeme) => ∃ text, '\n' ∉ text ∧ lexeme = quoted text

instance (name : String) : Decidable (IsIdentifier name) :=
  inferInstanceAs (Decidable (_ ∧ _))

/-! ## The first character of a word -/

/-- The characters with which a mark starts. -/
def isMarkStart (c : Char) : Bool :=
  ['.', ',', '=', '[', '\x7b', '\x7d'].contains c

/-- A spelling starts like a name or like a mark. -/
theorem exists_cons_of_mem_spellings {spelling : String} (h : spelling ∈ keywords ++ marks) :
    ∃ c rest, spelling.toList = c :: rest ∧ (isNameStart c || isMarkStart c) = true ∧
      ' ' ∉ spelling.toList := by
  have hall : ∀ spelling ∈ keywords ++ marks, spelling.toList.head?.any
      (fun c => isNameStart c || isMarkStart c) = true ∧ ' ' ∉ spelling.toList := by
    decide
  obtain ⟨hhead, hblank⟩ := hall spelling h
  cases hlist : spelling.toList with
  | nil => rw [hlist] at hhead; cases hhead
  | cons c rest =>
    rw [hlist] at hhead hblank
    exact ⟨c, rest, rfl, hhead, hblank⟩

/-- A spelling that is a name is a keyword. -/
theorem mem_keywords_of_isName {spelling : String} (h : spelling ∈ keywords ++ marks)
    (hname : isName spelling.toList = true) : spelling ∈ keywords := by
  have hall : ∀ spelling ∈ keywords ++ marks, isName spelling.toList = true →
      spelling ∈ keywords := by
    decide
  exact hall spelling h hname

/-- No digit starts a name. -/
theorem isNameStart_eq_false_of_isDigit {c : Char} (h : c.isDigit = true) :
    isNameStart c = false := by
  have hbounds : 48 ≤ c.toNat ∧ c.toNat ≤ 57 := Char.isDigit_iff_toNat.mp h
  have hne : c ≠ '_' := by
    rintro rfl
    revert h
    decide
  have hupper : ¬('A'.val ≤ c.val ∧ c.val ≤ 'Z'.val) := fun hletter =>
    absurd (Nat.le_trans (UInt32.le_iff_toNat_le.mp hletter.1) hbounds.2) (by decide)
  have hlower : ¬('a'.val ≤ c.val ∧ c.val ≤ 'z'.val) := fun hletter =>
    absurd (Nat.le_trans (UInt32.le_iff_toNat_le.mp hletter.1) hbounds.2) (by decide)
  have hletter : c.isAlpha = false := by
    show (decide ('A'.val ≤ c.val ∧ c.val ≤ 'Z'.val) ||
      (decide ('a'.val ≤ c.val) && decide (c.val ≤ 'z'.val))) = false
    rw [← Bool.decide_and, decide_eq_false hupper, decide_eq_false hlower]
    rfl
  rw [isNameStart, hletter, Bool.false_or, beq_eq_false_iff_ne]
  exact hne

/-! ## Lengths of matches -/

/-- The text is empty or starts with a blank. -/
def EndsWord (rest : List Char) : Prop :=
  ∀ c more, rest = c :: more → c = ' '

/-- What blanks end does not go on behind a word. -/
theorem takeWhile_append_of_endsWord {p : Char → Bool} (hp : p ' ' = false)
    {cs rest : List Char} (hrest : EndsWord rest) :
    (cs ++ rest).takeWhile p = cs.takeWhile p := by
  induction cs with
  | nil =>
    cases rest with
    | nil => rfl
    | cons c more =>
      obtain rfl := hrest c more rfl
      rw [List.nil_append, List.takeWhile_cons, hp]
      rfl
  | cons c cs ih => rw [List.cons_append, List.takeWhile_cons, List.takeWhile_cons, ih]

section Lengths

variable {cs rest : List Char} (hrest : EndsWord rest)
include hrest

/-- A name does not go on behind a word. -/
theorem nameLength_append_le : nameLength (cs ++ rest) ≤ cs.length := by
  cases cs with
  | nil =>
    cases rest with
    | nil => exact Nat.le_refl _
    | cons c more =>
      obtain rfl := hrest c more rfl
      exact Nat.le_refl _
  | cons c cs =>
    rw [List.cons_append, nameLength]
    split
    · rw [takeWhile_append_of_endsWord (by decide) hrest, List.length_cons, Nat.add_comm]
      exact Nat.succ_le_succ (List.takeWhile_sublist _).length_le
    · exact Nat.zero_le _

/-- A name is found as a whole. -/
theorem nameLength_append_of_isName (h : isName cs = true) :
    nameLength (cs ++ rest) = cs.length := by
  cases cs with
  | nil => cases h
  | cons c cs =>
    rw [isName, Bool.and_eq_true] at h
    rw [List.cons_append, nameLength, if_pos h.1, takeWhile_append_of_endsWord (by decide) hrest,
      List.takeWhile_eq_self_iff.mpr (List.all_eq_true.mp h.2), List.length_cons, Nat.add_comm]

/-- Digits do not go on behind a word. -/
theorem digitsLength_append_le : digitsLength (cs ++ rest) ≤ cs.length := by
  cases cs with
  | nil =>
    cases rest with
    | nil => exact Nat.le_refl _
    | cons c more =>
      obtain rfl := hrest c more rfl
      exact Nat.le_refl _
  | cons c cs =>
    rw [List.cons_append, digitsLength]
    split
    · rw [takeWhile_append_of_endsWord (by decide) hrest, List.length_cons, Nat.add_comm]
      exact Nat.succ_le_succ (List.takeWhile_sublist _).length_le
    · exact Nat.zero_le _

/-- Digits are found as a whole. -/
theorem digitsLength_append_of_isDigits (h : isDigits cs = true) :
    digitsLength (cs ++ rest) = cs.length := by
  cases cs with
  | nil => cases h
  | cons c cs =>
    rw [isDigits, Bool.and_eq_true] at h
    have hparts : ∀ d ∈ cs, isNamePart d = true := by
      intro d hd
      rw [isNamePart, Char.isAlphanum, List.all_eq_true.mp h.2 d hd, Bool.or_true, Bool.true_or]
    rw [List.cons_append, digitsLength, if_pos h.1, takeWhile_append_of_endsWord (by decide) hrest,
      List.takeWhile_eq_self_iff.mpr hparts, List.length_cons, Nat.add_comm]

/-- A number does not go on behind a word. -/
theorem numberLength_append_le : numberLength (cs ++ rest) ≤ cs.length := by
  cases cs with
  | nil =>
    cases rest with
    | nil => exact Nat.le_refl _
    | cons c more =>
      obtain rfl := hrest c more rfl
      exact Nat.le_refl _
  | cons c cs =>
    by_cases hsign : c = '-'
    · subst hsign
      have hle : digitsLength (cs ++ rest) ≤ cs.length := digitsLength_append_le hrest
      rw [List.cons_append, numberLength, List.length_cons]
      split
      · exact Nat.zero_le _
      · omega
    · have hplain : numberLength (c :: cs ++ rest) = digitsLength (c :: cs ++ rest) := by
        simp [numberLength, hsign]
      rw [hplain]
      exact digitsLength_append_le hrest

/-- A number is found as a whole. -/
theorem numberLength_append_of_isNumeral (h : isNumeral cs = true) :
    numberLength (cs ++ rest) = cs.length := by
  cases cs with
  | nil => cases h
  | cons c cs =>
    by_cases hsign : c = '-'
    · subst hsign
      have hdigits := digitsLength_append_of_isDigits hrest (show isDigits cs = true from h)
      have hpos : cs ≠ [] := by
        rintro rfl
        cases h
      have hlength := List.length_pos_iff.mpr hpos
      rw [List.cons_append, numberLength, hdigits, if_neg (by omega), List.length_cons,
        Nat.add_comm]
    · have hplain : numberLength (c :: cs ++ rest) = digitsLength (c :: cs ++ rest) := by
        simp [numberLength, hsign]
      rw [hplain]
      exact digitsLength_append_of_isDigits hrest (by simpa [isNumeral, hsign] using h)

end Lengths

/-- A quoted text ends at its closing quote. -/
theorem stringTailLength?_escape {text : List Char} (h : '\n' ∉ text) (rest : List Char) :
    stringTailLength? (escape text ++ '"' :: rest) = some ((escape text).length + 1) := by
  induction text with
  | nil => rfl
  | cons c text ih =>
    rw [List.mem_cons, not_or] at h
    have hline : c ≠ '\n' := Ne.symm h.1
    rw [escape]
    split
    · simp [stringTailLength?, hline, ih h.2]
    · next hplain =>
      rw [not_or] at hplain
      have hstep : ∀ more, stringTailLength? (c :: more) =
          (stringTailLength? more).map (· + 1) := by
        intro more
        simp [stringTailLength?, hplain, hline]
      rw [List.cons_append, hstep, ih h.2]
      rfl

/-- A quoted text is found as a whole. -/
theorem stringLength_quoted_append {text : List Char} (h : '\n' ∉ text) (rest : List Char) :
    stringLength (quoted text ++ rest) = (quoted text).length := by
  have htail := stringTailLength?_escape h rest
  simp only [quoted, List.cons_append, List.append_assoc, List.nil_append, stringLength, htail]
  simp

/-! ## The longest match -/

/-- A match that is not preferred to one of a terminal: it is shorter, or of the same length but no
fixed spelling like the other one. -/
def Loses (terminal : Terminal) (length : Nat) (other : Terminal × Nat) : Prop :=
  other.2 < length ∨ other.2 = length ∧ other.1.isFixed = false ∧ terminal.isFixed = true

/-- A match stays the preferred one among matches that lose to it. -/
theorem foldl_preferred_of_best {terminal : Terminal} {length : Nat}
    {others : List (Terminal × Nat)}
    (h : ∀ other ∈ others, other = (terminal, length) ∨ Loses terminal length other) :
    others.foldl preferred (terminal, length) = (terminal, length) := by
  induction others with
  | nil => rfl
  | cons other others ih =>
    rw [List.forall_mem_cons] at h
    have hkeep : preferred (terminal, length) other = (terminal, length) := by
      rcases h.1 with rfl | hless | ⟨hlength, hnot, -⟩
      · simp [preferred]
      · rw [preferred, if_neg]
        rintro (hlt | ⟨heq, -⟩) <;> simp only at * <;> omega
      · rw [preferred, if_neg]
        rintro (hlt | ⟨-, hfixed⟩)
        · simp only at hlt
          omega
        · rw [hnot] at hfixed
          cases hfixed
    rw [List.foldl_cons, hkeep]
    exact ih h.2

/-- A match becomes the preferred one when all others lose to it. -/
theorem foldl_preferred_of_mem {terminal : Terminal} {length : Nat}
    {others : List (Terminal × Nat)} (hmem : (terminal, length) ∈ others)
    (h : ∀ other ∈ others, other = (terminal, length) ∨ Loses terminal length other)
    {best : Terminal × Nat} (hbest : Loses terminal length best) :
    others.foldl preferred best = (terminal, length) := by
  induction others generalizing best with
  | nil => exact absurd hmem List.not_mem_nil
  | cons other others ih =>
    rw [List.forall_mem_cons] at h
    rw [List.foldl_cons]
    rcases h.1 with rfl | hother
    · have htake : preferred best (terminal, length) = (terminal, length) := by
        rw [preferred, if_pos]
        rcases hbest with hless | ⟨hlength, -, hfixed⟩
        · exact Or.inl hless
        · exact Or.inr ⟨hlength, hfixed⟩
      rw [htake]
      exact foldl_preferred_of_best h.2
    · have hnext : Loses terminal length (preferred best other) := by
        unfold preferred
        split
        · exact hother
        · exact hbest
      refine ih ?_ h.2 hnext
      rcases List.mem_cons.mp hmem with rfl | hmem
      · rcases hother with hless | ⟨-, hnot, hfixed⟩
        · exact absurd hless (Nat.lt_irrefl _)
        · rw [hnot] at hfixed
          cases hfixed
      · exact hmem

/-- The terminal whose match all others lose to is chosen. -/
theorem longest?_eq_some {allowed : List Terminal} {text : List Char} {terminal : Terminal}
    (hmem : terminal ∈ allowed) (hpos : 0 < terminal.wordLength text)
    (h : ∀ other ∈ allowed, other ≠ terminal →
      Loses terminal (terminal.wordLength text) (other, other.wordLength text)) :
    longest? allowed text = some (terminal, terminal.wordLength text) := by
  have hchosen : (allowed.map fun t => (t, t.wordLength text)).foldl preferred (.name, 0) =
      (terminal, terminal.wordLength text) := by
    refine foldl_preferred_of_mem (List.mem_map.mpr ⟨terminal, hmem, rfl⟩) ?_ (Or.inl hpos)
    intro candidate hcandidate
    obtain ⟨other, hother, rfl⟩ := List.mem_map.mp hcandidate
    by_cases hsame : other = terminal
    · exact Or.inl (by rw [hsame])
    · exact Or.inr (h other hother hsame)
  rw [longest?, hchosen]
  exact if_neg (Nat.ne_of_gt hpos)

/-! ## Words of the language -/

/-- A spelling is no number and no quoted text. -/
theorem not_isNumeral_of_mem_spellings {spelling : String} (h : spelling ∈ keywords ++ marks) :
    isNumeral spelling.toList = false ∧ spelling.toList.head? ≠ some '"' := by
  have hall : ∀ spelling ∈ keywords ++ marks,
      isNumeral spelling.toList = false ∧ spelling.toList.head? ≠ some '"' := by
    decide
  exact hall spelling h

/-- The character starts words of the terminal. -/
def IsHead : Terminal → Char → Prop
  | .fixed _, c => (isNameStart c || isMarkStart c) = true
  | .name, c => isNameStart c = true
  | .number, c => c = '-' ∨ c.isDigit = true
  | .string, c => c = '"'

/-- A word has a first character. -/
theorem exists_cons_of_spelled {word : Word} (h : Spelled word) :
    ∃ c cs, word.2 = c :: cs ∧ IsHead word.1 c := by
  obtain ⟨terminal, lexeme⟩ := word
  cases terminal with
  | fixed spelling =>
    obtain ⟨hmem, rfl⟩ := h
    obtain ⟨c, rest, hlist, hstart, -⟩ := exists_cons_of_mem_spellings hmem
    exact ⟨c, rest, hlist, hstart⟩
  | name =>
    have hname := h.1
    rw [String.toList_ofList] at hname
    cases lexeme with
    | nil => cases hname
    | cons c cs => exact ⟨c, cs, rfl, (Bool.and_eq_true_iff.mp hname).1⟩
  | number =>
    cases lexeme with
    | nil => cases h
    | cons c cs =>
      refine ⟨c, cs, rfl, ?_⟩
      by_cases hsign : c = '-'
      · exact Or.inl hsign
      · have hdigits : isDigits (c :: cs) = true := by
          simpa [Spelled, isNumeral, hsign] using h
        exact Or.inr (Bool.and_eq_true_iff.mp hdigits).1
  | string =>
    obtain ⟨text, -, rfl⟩ := h
    exact ⟨'"', _, rfl, rfl⟩

/-- A text with another first character than those of names holds no name at its start. -/
theorem nameLength_eq_zero {c : Char} (h : isNameStart c = false) (cs : List Char) :
    nameLength (c :: cs) = 0 := by
  rw [nameLength, h]
  rfl

/-- A text that starts with neither a sign nor a digit holds no number at its start. -/
theorem numberLength_eq_zero {c : Char} (hsign : c ≠ '-') (hdigit : c.isDigit = false)
    (cs : List Char) : numberLength (c :: cs) = 0 := by
  simp [numberLength, digitsLength, hsign, hdigit]

/-- A text that does not start with a quote holds no quoted text at its start. -/
theorem stringLength_eq_zero {c : Char} (h : c ≠ '"') (cs : List Char) :
    stringLength (c :: cs) = 0 := by
  simp [stringLength, h]

/-- The first characters of names are neither signs nor digits nor quotes. -/
theorem apart_of_isNameStart {c : Char} (h : isNameStart c = true) :
    c ≠ '-' ∧ c.isDigit = false ∧ c ≠ '"' := by
  refine ⟨?_, ?_, ?_⟩
  · rintro rfl
    revert h
    decide
  · cases hdigit : c.isDigit with
    | false => rfl
    | true =>
      rw [isNameStart_eq_false_of_isDigit hdigit] at h
      cases h
  · rintro rfl
    revert h
    decide

section Spelled

variable {rest : List Char} (hrest : EndsWord rest)
include hrest

/-- A spelling at the start of a text is a part of the word there. -/
theorem isPrefix_of_endsWord {spelling : String} (h : spelling ∈ keywords ++ marks)
    {cs : List Char} (hmatch : spelling.toList <+: cs ++ rest) : spelling.toList <+: cs := by
  rcases List.prefix_or_prefix_of_prefix hmatch (List.prefix_append cs rest) with hpart | hlonger
  · exact hpart
  · obtain ⟨more, hmore⟩ := hlonger
    obtain ⟨-, -, -, -, hblank⟩ := exists_cons_of_mem_spellings h
    rw [← hmore] at hmatch hblank ⊢
    cases more with
    | nil => simp
    | cons c more =>
      obtain ⟨after, hafter⟩ := (List.prefix_append_right_inj cs).mp hmatch
      obtain rfl := hrest c (more ++ after) hafter.symm
      exact absurd (List.mem_append_right _ List.mem_cons_self) hblank

/-- A word is found as a whole. -/
theorem wordLength_append_of_spelled {word : Word} (h : Spelled word) :
    word.1.wordLength (word.2 ++ rest) = word.2.length := by
  obtain ⟨terminal, lexeme⟩ := word
  cases terminal with
  | fixed spelling =>
    obtain ⟨-, rfl⟩ := h
    exact if_pos (List.isPrefixOf_iff_prefix.mpr (List.prefix_append _ _))
  | name =>
    have hname := h.1
    rw [String.toList_ofList] at hname
    exact nameLength_append_of_isName hrest hname
  | number => exact numberLength_append_of_isNumeral hrest h
  | string =>
    obtain ⟨text, hline, rfl⟩ := h
    exact stringLength_quoted_append hline rest

/-- A spelling that is not that of a word is shorter than the word. -/
theorem wordLength_fixed_lt {word : Word} (h : Spelled word) {spelling : String}
    (hmem : spelling ∈ keywords ++ marks) (hne : .fixed spelling ≠ word.1) :
    (Terminal.fixed spelling).wordLength (word.2 ++ rest) < word.2.length := by
  obtain ⟨c, cs, hcons, -⟩ := exists_cons_of_spelled h
  have hpos : 0 < word.2.length := by rw [hcons]; exact Nat.succ_pos _
  rw [Terminal.wordLength]
  split
  · next hmatch =>
    have hpart := isPrefix_of_endsWord hrest hmem (List.isPrefixOf_iff_prefix.mp hmatch)
    refine lt_of_le_of_ne hpart.length_le fun hlength => ?_
    have hsame := hpart.eq_of_length hlength
    obtain ⟨hnumeral, hquote⟩ := not_isNumeral_of_mem_spellings hmem
    obtain ⟨terminal, lexeme⟩ := word
    simp only at hsame
    cases terminal with
    | fixed other =>
      obtain ⟨-, rfl⟩ := h
      exact hne (by rw [String.toList_inj.mp hsame])
    | name =>
      obtain ⟨hname, hkeyword⟩ := h
      rw [← hsame, String.ofList_toList] at hname hkeyword
      exact hkeyword (mem_keywords_of_isName hmem hname)
    | number =>
      rw [hsame] at hnumeral
      rw [show isNumeral lexeme = true from h] at hnumeral
      cases hnumeral
    | string =>
      obtain ⟨text, -, rfl⟩ := h
      rw [hsame] at hquote
      exact hquote rfl
  · exact hpos

/-- All other terminals lose to that of a word. -/
theorem loses_of_spelled {word : Word} (h : Spelled word) {other : Terminal}
    (hmem : other ∈ vocabulary) (hne : other ≠ word.1) :
    Loses word.1 word.2.length (other, other.wordLength (word.2 ++ rest)) := by
  obtain ⟨c, cs, hcons, hstart⟩ := exists_cons_of_spelled h
  have hpos : 0 < word.2.length := by rw [hcons]; exact Nat.succ_pos _
  have htext : word.2 ++ rest = c :: (cs ++ rest) := by rw [hcons, List.cons_append]
  -- a terminal without a match loses, and so does one without a fixed spelling to a spelling
  have hzero : other.wordLength (word.2 ++ rest) = 0 →
      Loses word.1 word.2.length (other, other.wordLength (word.2 ++ rest)) :=
    fun hnone => Or.inl (by rw [hnone]; exact hpos)
  have hfixed : other.wordLength (word.2 ++ rest) ≤ word.2.length → other.isFixed = false →
      word.1.isFixed = true →
        Loses word.1 word.2.length (other, other.wordLength (word.2 ++ rest)) :=
    fun hle hnot hfixed => (Nat.lt_or_eq_of_le hle).imp_right fun heq => ⟨heq, hnot, hfixed⟩
  obtain ⟨terminal, lexeme⟩ := word
  simp only at hcons hstart htext hzero hfixed hne ⊢
  cases other with
  | fixed spelling =>
    have hspelling : spelling ∈ keywords ++ marks := by simpa [vocabulary] using hmem
    exact Or.inl (wordLength_fixed_lt hrest h hspelling hne)
  | name =>
    cases terminal with
    | fixed spelling => exact hfixed (nameLength_append_le hrest) rfl rfl
    | name => exact absurd rfl hne
    | number =>
      refine hzero ?_
      rw [htext]
      refine nameLength_eq_zero ?_ _
      rcases hstart with rfl | hdigit
      · decide
      · exact isNameStart_eq_false_of_isDigit hdigit
    | string =>
      refine hzero ?_
      obtain rfl : c = '"' := hstart
      rw [htext]
      show nameLength ('"' :: (cs ++ rest)) = 0
      exact nameLength_eq_zero (by decide) (cs ++ rest)
  | number =>
    cases terminal with
    | fixed spelling => exact hfixed (numberLength_append_le hrest) rfl rfl
    | name =>
      obtain ⟨hsign, hdigit, -⟩ := apart_of_isNameStart hstart
      exact hzero (by rw [htext]; exact numberLength_eq_zero hsign hdigit _)
    | number => exact absurd rfl hne
    | string =>
      refine hzero ?_
      obtain rfl : c = '"' := hstart
      rw [htext]
      show numberLength ('"' :: (cs ++ rest)) = 0
      exact numberLength_eq_zero (by decide) (by decide) (cs ++ rest)
  | string =>
    refine hzero ?_
    rw [htext]
    refine stringLength_eq_zero ?_ _
    rintro rfl
    cases terminal with
    | fixed spelling => exact absurd hstart (show ¬ (_ || _) = true by decide)
    | name => exact absurd hstart (show ¬ isNameStart _ = true by decide)
    | number => exact absurd hstart (show ¬ (_ ∨ _) by decide)
    | string => exact hne rfl

/-- A word is found with its terminal if this is looked for. -/
theorem longest?_append_of_spelled {word : Word} (h : Spelled word) {allowed : List Terminal}
    (hmem : word.1 ∈ allowed) (hallowed : allowed ⊆ vocabulary) :
    longest? allowed (word.2 ++ rest) = some (word.1, word.2.length) := by
  have hlength := wordLength_append_of_spelled hrest h
  obtain ⟨c, cs, hcons, -⟩ := exists_cons_of_spelled h
  have hlongest : longest? allowed (word.2 ++ rest) =
      some (word.1, word.1.wordLength (word.2 ++ rest)) := by
    refine longest?_eq_some hmem ?_ fun other hother hne => ?_
    · rw [hlength, hcons]
      exact Nat.succ_pos _
    · rw [hlength]
      exact loses_of_spelled hrest h (hallowed hother) hne
  rw [hlongest, hlength]

end Spelled

/-! ## Layout between words -/

/-- A character that starts a word starts no layout. -/
theorem not_layout_of_isHead {terminal : Terminal} {c : Char} (h : IsHead terminal c) :
    c ≠ '/' ∧ c ≠ '<' ∧ isBlank c = false := by
  have hall : ∀ d ∈ ['/', '<', ' ', '\t', '\x0c', '\r', '\n'],
      (isNameStart d || isMarkStart d) = false ∧ isNameStart d = false ∧ d ≠ '-' ∧
        d.isDigit = false ∧ d ≠ '"' := by
    simp only [List.forall_mem_cons, List.not_mem_nil, false_imp_iff, implies_true, and_true]
    decide
  have hapart : ∀ d ∈ ['/', '<', ' ', '\t', '\x0c', '\r', '\n'], c ≠ d := by
    rintro d hd rfl
    obtain ⟨hspelling, hname, hsign, hdigit, hquote⟩ := hall c hd
    cases terminal with
    | fixed spelling => exact absurd h (by rw [IsHead, hspelling]; exact Bool.false_ne_true)
    | name => exact absurd h (by rw [IsHead, hname]; exact Bool.false_ne_true)
    | number => exact absurd h (by rw [IsHead, hdigit]; simp [hsign])
    | string => exact hquote h
  refine ⟨hapart _ (by decide), hapart _ (by decide), ?_⟩
  simp only [isBlank, Bool.or_eq_false_iff, beq_eq_false_iff_ne]
  refine ⟨⟨⟨⟨?_, ?_⟩, ?_⟩, ?_⟩, ?_⟩ <;> exact hapart _ (by decide)

/-- A word is not taken for layout. -/
theorem layoutPiece?_append_of_spelled {word : Word} (h : Spelled word) (rest : List Char) :
    layoutPiece? (word.2 ++ rest) = none := by
  obtain ⟨c, cs, hcons, hstart⟩ := exists_cons_of_spelled h
  have hplain := not_layout_of_isHead hstart
  rw [hcons, List.cons_append]
  simp [layoutPiece?, hplain]

/-- There is no layout in front of a word. -/
theorem dropLayout_append_of_spelled {word : Word} (h : Spelled word) (rest : List Char) :
    dropLayout (word.2 ++ rest) = ([], word.2 ++ rest) := by
  rw [dropLayout]
  split
  · rfl
  · next hfound =>
    rw [layoutPiece?_append_of_spelled h rest] at hfound
    cases hfound

/-- The blank in front of a word is all layout there. -/
theorem dropLayout_blank_append_of_spelled {word : Word} (h : Spelled word) (rest : List Char) :
    dropLayout (' ' :: (word.2 ++ rest)) = ([' '], word.2 ++ rest) := by
  have hpiece : layoutPiece? (' ' :: (word.2 ++ rest)) = some ([' '], word.2 ++ rest) := rfl
  rw [dropLayout]
  split
  · next hnone =>
    rw [hpiece] at hnone
    cases hnone
  · next hfound =>
    rw [hpiece] at hfound
    cases hfound
    rw [dropLayout_append_of_spelled h rest]
    rfl

end FrancaLint.Source
