import FrancaLint.Rule.EnumLiteral
import Mathlib.Data.List.Forall2

/-! # Which enumerator literals are reported

Literals come in five forms, and every other text is reported with the base that its opening
announces. Letters may be small or capital. Characters outside ASCII are never part of a literal,
although two of them become letters inside ASCII when letters are made small.

* `IsLiteral`, the forms of literals, and `announced`, the fault of any other text.
* `smallForm_cases`: what a character becomes in small letters; `literalFault?_congr`: for literals
  all characters outside ASCII are alike, so it does not matter what those become there.
* `literalFault?_cons_cons`: the rule for more than one character, with `literalFault?_marked`,
  `literalFault?_octal` and `literalFault?_decimal` for texts that are not in small letters yet.
* `malformed_literals_are_reported`. -/

namespace FrancaLint.Rule

variable {c mark small large : Char} {text digits rest more marks : List Char}

/-! ## Literals -/

/-- A hexadecimal digit, in small or capital letters. -/
def isAnyHexDigit (c : Char) : Bool :=
  isHexDigit c || ('A' ≤ c && c ≤ 'F')

/-- One or more digits of a kind. -/
def AreDigits (isKind : Char → Bool) (text : List Char) : Prop :=
  text ≠ [] ∧ text.all isKind = true

/-- A **literal** is a digit, or more than one digit: of base two or sixteen behind a zero and the
letter of the base, of base eight behind a zero, and of base ten otherwise. -/
inductive IsLiteral : List Char → Prop where
  /-- One digit. -/
  | digit {d : Char} (h : d.isDigit = true) : IsLiteral [d]
  /-- Binary digits. -/
  | binary {mark : Char} {digits : List Char} (hmark : mark ∈ ['b', 'B'])
      (h : AreDigits isBinaryDigit digits) : IsLiteral ('0' :: mark :: digits)
  /-- Hexadecimal digits. -/
  | hexadecimal {mark : Char} {digits : List Char} (hmark : mark ∈ ['x', 'X'])
      (h : AreDigits isAnyHexDigit digits) : IsLiteral ('0' :: mark :: digits)
  /-- Octal digits. -/
  | octal {digits : List Char} (h : AreDigits isOctalDigit digits) : IsLiteral ('0' :: digits)
  /-- Decimal digits. -/
  | decimal {first : Char} {digits : List Char} (hfirst : '1' ≤ first ∧ first ≤ '9')
      (h : AreDigits Char.isDigit digits) : IsLiteral (first :: digits)

/-- The text begins with a zero and one of the letters that mark a base, and does not end there. -/
def marksBase (marks : List Char) : List Char → Bool
  | '0' :: mark :: _ :: _ => marks.contains mark
  | _ => false

/-- A base is marked by one of its letters behind a zero. -/
theorem marksBase_iff : marksBase marks text = true ↔
    ∃ mark digits, text = '0' :: mark :: digits ∧ mark ∈ marks ∧ digits ≠ [] := by
  constructor
  · intro h
    unfold marksBase at h
    split at h
    · exact ⟨_, _, rfl, List.contains_iff_mem.mp h, List.cons_ne_nil _ _⟩
    · exact absurd h Bool.false_ne_true
  · rintro ⟨mark, digits, rfl, hmark, hne⟩
    obtain ⟨d, rest, rfl⟩ := List.exists_cons_of_ne_nil hne
    exact List.contains_iff_mem.mpr hmark

/-- The fault of a text that is no literal, by what the opening of the text announces: digits of
the base that it marks, octal digits behind any other zero that is not alone, and decimal digits if
it has more than one character, even if only in small letters. -/
def announced (text : List Char) : LiteralFault :=
  if text = [] then .missing
  else if marksBase ['b', 'B'] text then .notBinary
  else if marksBase ['x', 'X'] text then .notHexadecimal
  else if text.head? = some '0' ∧ 2 ≤ text.length then .notOctal
  else if 2 ≤ (smallLetters text).length then .notDecimal
  else .notNumber

/-! ## Kinds of digits -/

/-- A decimal digit by its number. -/
theorem isDigit_iff : c.isDigit = true ↔ 48 ≤ c.toNat ∧ c.toNat ≤ 57 :=
  Char.isDigit_iff_toNat

/-- A hexadecimal digit in small letters by its number. -/
theorem isHexDigit_iff : isHexDigit c = true ↔
    (48 ≤ c.toNat ∧ c.toNat ≤ 57) ∨ (97 ≤ c.toNat ∧ c.toNat ≤ 102) := by
  rw [isHexDigit, Bool.or_eq_true, Bool.and_eq_true, isDigit_iff, decide_eq_true_eq,
    decide_eq_true_eq]
  exact Iff.rfl

/-- A hexadecimal digit by its number. -/
theorem isAnyHexDigit_iff : isAnyHexDigit c = true ↔
    isHexDigit c = true ∨ (65 ≤ c.toNat ∧ c.toNat ≤ 70) := by
  rw [isAnyHexDigit, Bool.or_eq_true, Bool.and_eq_true, decide_eq_true_eq, decide_eq_true_eq]
  exact Iff.rfl

/-- An octal digit is a decimal digit. -/
theorem isDigit_of_isOctalDigit {c : Char} (h : isOctalDigit c = true) : c.isDigit = true := by
  rw [isOctalDigit, Bool.and_eq_true, decide_eq_true_eq, decide_eq_true_eq] at h
  obtain ⟨hlow, hhigh⟩ : 48 ≤ c.toNat ∧ c.toNat ≤ 55 := h
  exact isDigit_iff.mpr ⟨hlow, by omega⟩

/-- A binary digit is a decimal digit. -/
theorem isDigit_of_isBinaryDigit {c : Char} (h : isBinaryDigit c = true) : c.isDigit = true := by
  rw [isBinaryDigit, Bool.or_eq_true, beq_iff_eq, beq_iff_eq] at h
  rcases h with rfl | rfl <;> rfl

/-! ## Small forms -/

/-- A capital letter becomes a small one, the two letters that become one inside ASCII are outside,
and every other character stays as it is. -/
theorem smallForm_cases (c : Char) :
    (smallForm c = [c] ∧ ¬ (65 ≤ c.toNat ∧ c.toNat ≤ 90)) ∨
    (∃ d : Char, smallForm c = [d] ∧ 65 ≤ c.toNat ∧ c.toNat ≤ 90 ∧ d.toNat = c.toNat + 32) ∨
    128 ≤ c.toNat ∧ (smallForm c = ['i', Char.ofNat 0x307] ∨ smallForm c = ['k']) := by
  unfold smallForm
  split
  · rename_i hi
    rw [hi]
    exact .inr (.inr ⟨by decide, .inl rfl⟩)
  split
  · rename_i hk
    rw [hk]
    exact .inr (.inr ⟨by decide, .inr rfl⟩)
  unfold Char.toLower
  split
  · rename_i hcapital
    obtain ⟨hlow, hhigh⟩ : 65 ≤ c.toNat ∧ c.toNat ≤ 90 := hcapital
    refine .inr (.inl ⟨_, rfl, hlow, hhigh, ?_⟩)
    show (c.val + 32).toNat = c.toNat + 32
    rw [UInt32.toNat_add]
    show (c.toNat + 32) % 2 ^ 32 = c.toNat + 32
    omega
  · rename_i hcapital
    exact .inl ⟨rfl, hcapital⟩

/-- A small form that begins with anything but an `i` or a `k` is one character, and stands for
that character or its capital letter. -/
theorem eq_of_smallForm {first : Char} (h : smallForm c = first :: more) (hi : first ≠ 'i')
    (hk : first ≠ 'k') : more = [] ∧ (c = first ∨ 65 ≤ c.toNat ∧ c.toNat + 32 = first.toNat) := by
  rcases smallForm_cases c with ⟨heq, -⟩ | ⟨d, heq, hlow, -, hd⟩ | ⟨-, heq | heq⟩ <;>
    rw [heq, List.cons.injEq] at h
  · exact ⟨h.2.symm, .inl h.1⟩
  · exact ⟨h.2.symm, .inr ⟨hlow, by rw [← h.1, hd]⟩⟩
  · exact absurd h.1.symm hi
  · exact absurd h.1.symm hk

/-- No letter is a decimal digit, before or after it becomes small. -/
theorem all_smallForm {isKind : Char → Bool} (hkind : ∀ c, isKind c = true → c.isDigit = true)
    (c : Char) : (smallForm c).all isKind = isKind c := by
  have hnot : ∀ d : Char, ¬ (48 ≤ d.toNat ∧ d.toNat ≤ 57) → isKind d = false := fun d hd =>
    Bool.eq_false_iff.mpr fun h => hd (isDigit_iff.mp (hkind d h))
  rcases smallForm_cases c with ⟨hsame, -⟩ | ⟨d, hd, hlow, hhigh, heq⟩ | ⟨hfar, hi | hk⟩
  · simp [hsame]
  · simp [hd, hnot c (by omega), hnot d (by omega)]
  · simp [hi, hnot c (by omega), hnot 'i' (by decide)]
  · simp [hk, hnot c (by omega), hnot 'k' (by decide)]

/-- Hexadecimal digits are those that become one in small letters. -/
theorem all_isHexDigit_smallForm (c : Char) : (smallForm c).all isHexDigit = isAnyHexDigit c := by
  rw [Bool.eq_iff_iff, isAnyHexDigit_iff, isHexDigit_iff]
  rcases smallForm_cases c with ⟨hsame, hother⟩ | ⟨d, hd, hlow, hhigh, heq⟩ | ⟨hfar, hi | hk⟩
  · simp [hsame, isHexDigit_iff]
    omega
  · simp [hd, isHexDigit_iff]
    omega
  · simp [hi, isHexDigit_iff]
    omega
  · simp [hk, isHexDigit_iff]
    omega

/-! ## Texts in small letters -/

/-- Small letters are taken character by character. -/
theorem smallLetters_cons (c : Char) (rest : List Char) :
    smallLetters (c :: rest) = smallForm c ++ smallLetters rest :=
  rfl

/-- The first character is one of the small form of the first character. -/
theorem exists_smallLetters_cons (c : Char) (rest : List Char) :
    ∃ first tail, smallForm c = first :: tail ∧
      smallLetters (c :: rest) = first :: (tail ++ smallLetters rest) := by
  obtain ⟨first, tail, hform⟩ : ∃ first tail, smallForm c = first :: tail := by
    rcases smallForm_cases c with ⟨heq, -⟩ | ⟨d, heq, -⟩ | ⟨-, heq | heq⟩ <;> exact ⟨_, _, heq⟩
  refine ⟨first, tail, hform, ?_⟩
  rw [smallLetters_cons, hform, List.cons_append]

/-- A zero is its own small form. -/
theorem smallLetters_zero (rest : List Char) :
    smallLetters ('0' :: rest) = '0' :: smallLetters rest :=
  rfl

/-- Only nothing becomes nothing. -/
theorem smallLetters_eq_nil_iff : smallLetters text = [] ↔ text = [] := by
  cases text with
  | nil => exact iff_of_true rfl rfl
  | cons c rest =>
    obtain ⟨first, tail, -, hsmall⟩ := exists_smallLetters_cons c rest
    rw [hsmall]
    exact iff_of_false (List.cons_ne_nil _ _) (List.cons_ne_nil c rest)

/-- A text is of one kind in small letters if it was of the kind for it before. -/
theorem all_smallLetters {isSmall isKind : Char → Bool}
    (h : ∀ c, (smallForm c).all isSmall = isKind c) (text : List Char) :
    (smallLetters text).all isSmall = text.all isKind := by
  rw [smallLetters, List.all_flatMap]
  exact congrArg text.all (funext h)

/-- Decimal digits are their own small forms. -/
theorem smallLetters_of_digits (h : text.all Char.isDigit = true) : smallLetters text = text := by
  induction text with
  | nil => rfl
  | cons c rest ih =>
    rw [List.all_cons, Bool.and_eq_true, isDigit_iff] at h
    obtain ⟨⟨hlow, hhigh⟩, hrest⟩ := h
    rcases smallForm_cases c with ⟨heq, -⟩ | ⟨d, -, hletter, -⟩ | ⟨hfar, -⟩
    · rw [smallLetters_cons, heq, ih hrest, List.singleton_append]
    · omega
    · omega

/-- No other character becomes a zero. -/
theorem head?_smallLetters_ne_zero (h : text.head? ≠ some '0') :
    (smallLetters text).head? ≠ some '0' := by
  cases text with
  | nil => exact h
  | cons c rest =>
    obtain ⟨first, tail, hform, hsmall⟩ := exists_smallLetters_cons c rest
    rw [hsmall, List.head?_cons]
    intro hfirst
    rw [Option.some.inj hfirst] at hform
    rcases (eq_of_smallForm hform (by decide) (by decide)).2 with rfl | ⟨hletter, heq⟩
    · exact h rfl
    · -- the number of a zero is too small for a letter
      have hnumber : c.toNat + 32 = 48 := heq
      omega

/-- The small letter of a base behind a zero was the small or the capital letter before. -/
theorem marksBase_of_smallLetters (hcase : large.toNat + 32 = small.toNat) (hi : small ≠ 'i')
    (hk : small ≠ 'k') (h : smallLetters rest = small :: more) (hmore : more ≠ []) :
    marksBase [small, large] ('0' :: rest) = true := by
  cases rest with
  | nil => cases h
  | cons mark digits =>
    obtain ⟨first, tail, hform, hsmall⟩ := exists_smallLetters_cons mark digits
    rw [hsmall, List.cons.injEq] at h
    obtain ⟨rfl, rfl⟩ := h
    obtain ⟨rfl, hmark⟩ := eq_of_smallForm hform hi hk
    have hmem : mark ∈ [first, large] := by
      rcases hmark with rfl | ⟨-, heq⟩
      · exact List.mem_cons_self
      · have hlarge : mark = large := Char.toNat_inj.mp (by omega)
        exact List.mem_cons_of_mem _ (List.mem_singleton.mpr hlarge)
    have hne : digits ≠ [] := mt smallLetters_eq_nil_iff.mpr hmore
    exact marksBase_iff.mpr ⟨mark, digits, rfl, hmem, hne⟩

/-! ## The rule for more than one character -/

/-- More than one character in small letters: behind a zero, a letter that does not end the text
marks the base, and without such a letter the base is eight; without a zero it is ten. -/
theorem literalFault?_cons_cons (c d : Char) (rest : List Char) :
    literalFault? (c :: d :: rest) =
      if c = '0' then
        if d = 'b' ∧ rest ≠ [] then if rest.all isBinaryDigit then none else some .notBinary
        else if d = 'x' ∧ rest ≠ [] then if rest.all isHexDigit then none else some .notHexadecimal
        else if (d :: rest).all isOctalDigit then none else some .notOctal
      else if (c :: d :: rest).all Char.isDigit then none else some .notDecimal := by
  unfold literalFault?
  split
  · rename_i heq
    cases heq
  · rename_i heq
    cases heq
  · rename_i heq
    cases heq
    simp
  · rename_i heq
    cases heq
    simp
  · -- the second character marks no base, as it is another one or ends the text
    rename_i hbinary hhexadecimal heq
    cases heq
    have hnoBinary : ¬ (d = 'b' ∧ rest ≠ []) := by
      rintro ⟨rfl, hne⟩
      obtain ⟨e, more, rfl⟩ := List.exists_cons_of_ne_nil hne
      exact hbinary e more rfl
    have hnoHexadecimal : ¬ (d = 'x' ∧ rest ≠ []) := by
      rintro ⟨rfl, hne⟩
      obtain ⟨e, more, rfl⟩ := List.exists_cons_of_ne_nil hne
      exact hhexadecimal e more rfl
    rw [if_pos rfl, if_neg hnoBinary, if_neg hnoHexadecimal]
  · rename_i hzero
    have hnoZero : c ≠ '0' := by
      rintro rfl
      exact hzero _ rfl
    rw [if_neg hnoZero]

/-! ## Characters outside ASCII -/

/-- Two characters are **alike** for literals if they are the same or both outside ASCII. -/
def AreAlike (c d : Char) : Prop :=
  c = d ∨ (128 ≤ c.toNat ∧ 128 ≤ d.toNat)

/-- Only a character of ASCII is told from others. -/
theorem AreAlike.eq_iff {c d e : Char} (h : AreAlike c d) (he : e.toNat < 128) :
    c = e ↔ d = e := by
  rcases h with rfl | ⟨hc, hd⟩
  · exact Iff.rfl
  · refine iff_of_false ?_ ?_
    · rintro rfl
      omega
    · rintro rfl
      omega

/-- A kind of characters inside ASCII does not tell alike characters apart. -/
theorem AreAlike.kind_eq {isKind : Char → Bool} (hkind : ∀ c, isKind c = true → c.toNat < 128)
    {c d : Char} (h : AreAlike c d) : isKind c = isKind d := by
  rcases h with rfl | ⟨hc, hd⟩
  · rfl
  · have hnot : ∀ e : Char, 128 ≤ e.toNat → isKind e = false := fun e he =>
      Bool.eq_false_iff.mpr fun hin => absurd (hkind e hin) (Nat.not_lt.mpr he)
    rw [hnot c hc, hnot d hd]

/-- A kind of characters inside ASCII does not tell texts of alike characters apart. -/
theorem all_eq_of_alike {isKind : Char → Bool} (hkind : ∀ c, isKind c = true → c.toNat < 128)
    (h : List.Forall₂ AreAlike text rest) : text.all isKind = rest.all isKind := by
  induction h with
  | nil => rfl
  | cons hc _ ih => rw [List.all_cons, List.all_cons, hc.kind_eq hkind, ih]

/-- **Texts of alike characters have the same fault.** So it makes no difference to literals which
characters outside ASCII others become in small letters. -/
theorem literalFault?_congr (h : List.Forall₂ AreAlike text rest) :
    literalFault? text = literalFault? rest := by
  have hdigit : ∀ c : Char, c.isDigit = true → c.toNat < 128 := by
    intro c hc
    have hnumber := isDigit_iff.mp hc
    omega
  have hhexDigit : ∀ c : Char, isHexDigit c = true → c.toNat < 128 := by
    intro c hc
    have hnumber := isHexDigit_iff.mp hc
    omega
  cases h with
  | nil => rfl
  | @cons c c' tail tail' hc htail =>
    cases htail with
    | nil =>
      show (if c.isDigit then _ else _) = if c'.isDigit then _ else _
      rw [hc.kind_eq hdigit]
    | @cons d d' more other hd hrest =>
      have hnil : more ≠ [] ↔ other ≠ [] := by
        rw [← List.length_pos_iff, hrest.length_eq, List.length_pos_iff]
      have hbinary := all_eq_of_alike (fun c h => hdigit c (isDigit_of_isBinaryDigit h)) hrest
      have hoctal := all_eq_of_alike (fun c h => hdigit c (isDigit_of_isOctalDigit h))
        (.cons hd hrest)
      have hdecimal := all_eq_of_alike hdigit (.cons hc (.cons hd hrest))
      have hhexadecimal := all_eq_of_alike hhexDigit hrest
      rw [literalFault?_cons_cons, literalFault?_cons_cons]
      simp only [hc.eq_iff (e := '0') (by decide), hd.eq_iff (e := 'b') (by decide),
        hd.eq_iff (e := 'x') (by decide), hnil, hbinary, hhexadecimal, hoctal,
        hdecimal]

/-- A letter that marks a base announces the digits of the base, whatever case letters have. -/
theorem literalFault?_marked {isSmall isKind : Char → Bool} {fault : LiteralFault}
    (hmark : smallForm mark = [small]) (hne : digits ≠ [])
    (hrule : ∀ d rest, literalFault? ('0' :: small :: d :: rest) =
      if (d :: rest).all isSmall then none else some fault)
    (hkind : ∀ c, (smallForm c).all isSmall = isKind c) :
    literalFault? (smallLetters ('0' :: mark :: digits)) =
      if digits.all isKind then none else some fault := by
  obtain ⟨d, rest, hsmall⟩ := List.exists_cons_of_ne_nil (mt smallLetters_eq_nil_iff.mp hne)
  rw [smallLetters_zero, smallLetters_cons, hmark, ← all_smallLetters hkind, hsmall]
  exact hrule d rest

/-- Behind a zero and a `b` binary digits are expected. -/
theorem literalFault?_binary (hmark : mark ∈ ['b', 'B']) (hne : digits ≠ []) :
    literalFault? (smallLetters ('0' :: mark :: digits)) =
      if digits.all isBinaryDigit then none else some .notBinary := by
  have hform : smallForm mark = ['b'] := by
    rcases List.mem_pair.mp hmark with rfl | rfl <;> rfl
  exact literalFault?_marked hform hne (fun _ _ => rfl)
    (all_smallForm fun _ => isDigit_of_isBinaryDigit)

/-- Behind a zero and an `x` hexadecimal digits are expected. -/
theorem literalFault?_hexadecimal (hmark : mark ∈ ['x', 'X']) (hne : digits ≠ []) :
    literalFault? (smallLetters ('0' :: mark :: digits)) =
      if digits.all isAnyHexDigit then none else some .notHexadecimal := by
  have hform : smallForm mark = ['x'] := by
    rcases List.mem_pair.mp hmark with rfl | rfl <;> rfl
  exact literalFault?_marked hform hne (fun _ _ => rfl) all_isHexDigit_smallForm

/-- Behind any other zero octal digits are expected. -/
theorem literalFault?_octal (hne : rest ≠ [])
    (hbinary : ¬ marksBase ['b', 'B'] ('0' :: rest) = true)
    (hhexadecimal : ¬ marksBase ['x', 'X'] ('0' :: rest) = true) :
    literalFault? (smallLetters ('0' :: rest)) =
      if rest.all isOctalDigit then none else some .notOctal := by
  obtain ⟨d, more, hsmall⟩ := List.exists_cons_of_ne_nil (mt smallLetters_eq_nil_iff.mp hne)
  have hnoBinary : ¬ (d = 'b' ∧ more ≠ []) := by
    rintro ⟨rfl, hmore⟩
    exact hbinary (marksBase_of_smallLetters rfl (by decide) (by decide) hsmall hmore)
  have hnoHexadecimal : ¬ (d = 'x' ∧ more ≠ []) := by
    rintro ⟨rfl, hmore⟩
    exact hhexadecimal (marksBase_of_smallLetters rfl (by decide) (by decide) hsmall hmore)
  rw [smallLetters_zero, ← all_smallLetters (all_smallForm fun _ => isDigit_of_isOctalDigit),
    hsmall, literalFault?_cons_cons, if_pos rfl, if_neg hnoBinary, if_neg hnoHexadecimal]

/-- More than one character without a zero in front should be decimal digits. -/
theorem literalFault?_decimal (hzero : text.head? ≠ some '0')
    (hlong : 2 ≤ (smallLetters text).length) :
    literalFault? (smallLetters text) =
      if text.all Char.isDigit then none else some .notDecimal := by
  have hhead := head?_smallLetters_ne_zero hzero
  rw [← all_smallLetters (all_smallForm fun _ => id)]
  match hsmall : smallLetters text with
  | [] => simp [hsmall] at hlong
  | [c] => simp [hsmall] at hlong
  | c :: d :: rest =>
    rw [hsmall] at hhead
    rw [literalFault?_cons_cons, if_neg fun hc => hhead (congrArg some hc)]

/-- One character should be a digit. -/
theorem literalFault?_single (hne : text ≠ []) (hshort : ¬ 2 ≤ (smallLetters text).length) :
    ∃ c, text = [c] ∧
      literalFault? (smallLetters text) = if c.isDigit then none else some .notNumber := by
  obtain ⟨c, rest, rfl⟩ := List.exists_cons_of_ne_nil hne
  obtain ⟨first, tail, hform, hsmall⟩ := exists_smallLetters_cons c rest
  have hdigit := all_smallForm (fun _ => id) c
  rw [hsmall, List.length_cons, List.length_append] at hshort
  have htail : tail = [] := List.length_eq_zero_iff.mp (by omega)
  have hrest : rest = [] := smallLetters_eq_nil_iff.mp (List.length_eq_zero_iff.mp (by omega))
  rw [hform, htail, List.all_cons, List.all_nil, Bool.and_true] at hdigit
  refine ⟨c, by rw [hrest], ?_⟩
  rw [hsmall, htail, hrest, ← hdigit]
  rfl

/-! ## Literals and faults -/

/-- An octal digit marks no base. -/
theorem not_marksBase_of_octal (hmarks : marks.any isOctalDigit = false)
    (hdigits : digits.all isOctalDigit = true) : ¬ marksBase marks ('0' :: digits) = true := by
  intro h
  obtain ⟨mark, rest, heq, hmark, -⟩ := marksBase_iff.mp h
  rw [(List.cons.inj heq).2, List.all_cons, Bool.and_eq_true] at hdigits
  exact List.any_eq_false.mp hmarks mark hmark hdigits.1

/-- A literal has no fault. -/
theorem IsLiteral.literalFault?_eq (h : IsLiteral text) :
    literalFault? (smallLetters text) = none := by
  cases h with
  | @digit d hdigit =>
    have hdigits : [d].all Char.isDigit = true := by rw [List.all_cons, hdigit]; rfl
    rw [smallLetters_of_digits hdigits]
    exact if_pos hdigit
  | binary hmark hdigits => rw [literalFault?_binary hmark hdigits.1, if_pos hdigits.2]
  | hexadecimal hmark hdigits => rw [literalFault?_hexadecimal hmark hdigits.1, if_pos hdigits.2]
  | @octal digits hdigits =>
    have hbinary : ¬ marksBase ['b', 'B'] ('0' :: digits) = true :=
      not_marksBase_of_octal rfl hdigits.2
    have hhexadecimal : ¬ marksBase ['x', 'X'] ('0' :: digits) = true :=
      not_marksBase_of_octal rfl hdigits.2
    rw [literalFault?_octal hdigits.1 hbinary hhexadecimal, if_pos hdigits.2]
  | @decimal first digits hfirst hdigits =>
    obtain ⟨hlow, hhigh⟩ : 49 ≤ first.toNat ∧ first.toNat ≤ 57 := hfirst
    have hall : (first :: digits).all Char.isDigit = true := by
      rw [List.all_cons, isDigit_iff.mpr ⟨by omega, hhigh⟩, Bool.true_and]
      exact hdigits.2
    have hzero : (first :: digits).head? ≠ some '0' := by
      intro h
      have hnumber : first.toNat = 48 := congrArg Char.toNat (Option.some.inj h)
      omega
    have hlong : 2 ≤ (smallLetters (first :: digits)).length := by
      have hpos := List.length_pos_iff.mpr hdigits.1
      rw [smallLetters_of_digits hall, List.length_cons]
      omega
    rw [literalFault?_decimal hzero hlong, if_pos hall]

/-- More than one decimal digit without a zero in front is a literal. -/
theorem isLiteral_of_digits (hzero : text.head? ≠ some '0')
    (hdigits : text.all Char.isDigit = true) (hlong : 2 ≤ text.length) : IsLiteral text := by
  match text with
  | [] => exact absurd hlong (by decide)
  | [c] => exact absurd hlong (by simp)
  | first :: d :: rest =>
    rw [List.all_cons, Bool.and_eq_true, isDigit_iff] at hdigits
    obtain ⟨⟨hlow, hhigh⟩, hrest⟩ := hdigits
    have hne : first.toNat ≠ 48 := fun h => hzero (congrArg some (Char.toNat_inj.mp (h.trans rfl)))
    have hone : 49 ≤ first.toNat := by omega
    exact .decimal ⟨hone, hhigh⟩ ⟨List.cons_ne_nil d rest, hrest⟩

/-- A text that is no literal has the fault that its opening announces. -/
theorem isLiteral_or_literalFault?_eq (text : List Char) :
    IsLiteral text ∨ literalFault? (smallLetters text) = some (announced text) := by
  unfold announced
  split_ifs with hnil hbinary hhexadecimal hoctal hlong
  · rw [hnil]
    exact .inr rfl
  · obtain ⟨mark, digits, rfl, hmark, hne⟩ := marksBase_iff.mp hbinary
    rw [literalFault?_binary hmark hne]
    split
    · rename_i hdigits
      exact .inl (.binary hmark ⟨hne, hdigits⟩)
    · exact .inr rfl
  · obtain ⟨mark, digits, rfl, hmark, hne⟩ := marksBase_iff.mp hhexadecimal
    rw [literalFault?_hexadecimal hmark hne]
    split
    · rename_i hdigits
      exact .inl (.hexadecimal hmark ⟨hne, hdigits⟩)
    · exact .inr rfl
  · obtain ⟨hzero, hlength⟩ := hoctal
    obtain ⟨rest, rfl⟩ := List.head?_eq_some_iff.mp hzero
    have hne : rest ≠ [] := by
      rintro rfl
      exact absurd hlength (by decide)
    rw [literalFault?_octal hne hbinary hhexadecimal]
    split
    · rename_i hdigits
      exact .inl (.octal ⟨hne, hdigits⟩)
    · exact .inr rfl
  · -- a zero would be alone, and has no second character in small letters either
    have hzero : text.head? ≠ some '0' := by
      intro hzero
      obtain ⟨rest, rfl⟩ := List.head?_eq_some_iff.mp hzero
      cases rest with
      | nil => exact absurd hlong (by decide)
      | cons d rest => exact hoctal ⟨rfl, by simp⟩
    rw [literalFault?_decimal hzero hlong]
    split
    · rename_i hdigits
      rw [smallLetters_of_digits hdigits] at hlong
      exact .inl (isLiteral_of_digits hzero hdigits hlong)
    · exact .inr rfl
  · obtain ⟨c, rfl, heq⟩ := literalFault?_single hnil hlong
    rw [heq]
    split
    · rename_i hdigit
      exact .inl (.digit hdigit)
    · exact .inr rfl

/-- **Malformed literals are reported, and no others.** Nothing is found exactly if the text is a
literal; for every other text one warning is found, with the message of the fault that the opening
of the text announces. -/
theorem malformed_literals_are_reported (text : String) :
    (enumLiteral? text = none ↔ IsLiteral text.toList) ∧
      ∀ finding, enumLiteral? text = some finding ↔
        ¬ IsLiteral text.toList ∧ finding = (.warning, (announced text.toList).message) := by
  by_cases hliteral : IsLiteral text.toList
  · have hnone : enumLiteral? text = none := by
      rw [enumLiteral?, hliteral.literalFault?_eq, Option.map_none]
    rw [hnone]
    exact ⟨iff_of_true rfl hliteral,
      fun finding => iff_of_false (Option.some_ne_none finding).symm fun h => h.1 hliteral⟩
  · have hfault := (isLiteral_or_literalFault?_eq text.toList).resolve_left hliteral
    rw [enumLiteral?, hfault, Option.map_some]
    refine ⟨iff_of_false (Option.some_ne_none _) hliteral, fun finding => ?_⟩
    rw [Option.some.injEq, eq_comm]
    exact (and_iff_right hliteral).symm

/-- A bare prefix is an octal zero with a letter, and a capital dotted `I` has two characters in
small letters. -/
example :
    enumLiteral? "0b" = some (.warning, "Not a valid number! Should be octal") ∧
      enumLiteral? "İ" = some (.warning, "Not a valid number! Should be decimal") := by
  decide +kernel

end FrancaLint.Rule
