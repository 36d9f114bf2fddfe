import FrancaLint.Proofs.Source.Writer

/-! # Literals and dotted names as they are written

What the words of a document stand for: the numeral of a number is read as that number, as long as
it has no more digits than can be read; a quoted text is read as the text; the segments of a dotted
name make up the name.

* `decimal?_numeral`, with `isNumeral_numeral` for the words.
* `IsQuotable`, what may stand between quotes: a backslash takes the next character with it, so that
  every quote there has an odd number of backslashes in front.
* `replacePair_replacePair`: both replacements together read a text from left to right, with
  `quotedText_quoted`: they undo the backslashes.
* `intercalate_segments`. -/

namespace FrancaLint.Source

/-! ## Numbers -/

/-- The digits of a natural number are decimal digits. -/
theorem isDigits_toDigits (n : Nat) : isDigits (Nat.toDigits 10 n) = true := by
  have hall : ∀ c ∈ Nat.toDigits 10 n, c.isDigit = true :=
    fun c => Nat.isDigit_of_mem_toDigits (by decide) (by decide)
  cases hlist : Nat.toDigits 10 n with
  | nil => exact absurd hlist Nat.toDigits_ne_nil
  | cons c rest =>
    rw [hlist, List.forall_mem_cons] at hall
    rw [isDigits, hall.1, Bool.true_and, List.all_eq_true]
    exact hall.2

/-- A numeral is digits behind a sign or not. -/
theorem isNumeral_numeral (n : Int) : isNumeral (numeral n) = true := by
  have hdigits := isDigits_toDigits n.natAbs
  unfold numeral
  split
  · exact hdigits
  · unfold isNumeral
    split
    · next rest heq =>
      rw [heq] at hdigits
      cases hdigits
    · exact hdigits

/-- Digits are read without change. -/
theorem groupedDigits?_of_isDigits {cs : List Char} (h : isDigits cs = true) :
    groupedDigits? cs = some cs := by
  induction cs with
  | nil => cases h
  | cons c cs ih =>
    rw [isDigits, Bool.and_eq_true] at h
    cases cs with
    | nil => rw [groupedDigits?, if_pos h.1]
    | cons d rest =>
      have hdigit : d.isDigit = true := by
        rw [List.all_cons, Bool.and_eq_true] at h
        exact h.2.1
      have hne : d ≠ '_' := by
        rintro rfl
        cases hdigit
      have hrest : groupedDigits? (d :: rest) = some (d :: rest) := ih h.2
      simp [groupedDigits?, h.1, hne, hrest]

/-- The digits of a natural number have its value. -/
theorem digitsValue_toDigits (n : Nat) : digitsValue (Nat.toDigits 10 n) = n :=
  Nat.ofDigitChars_ten_toDigits

/-- The digits of a natural number are read as the number. -/
theorem natural?_toDigits {n : Nat} (h : (Nat.toDigits 10 n).length ≤ maxDigits) :
    natural? (Nat.toDigits 10 n) = some n := by
  rw [natural?, groupedDigits?_of_isDigits (isDigits_toDigits n)]
  simp only
  rw [if_pos h, digitsValue_toDigits]

/-- A numeral is read as the number. -/
theorem decimal?_numeral {n : Int} (h : IsShort n) : decimal? (numeral n) = some n := by
  have hread := natural?_toDigits h
  unfold numeral
  split
  · next hneg =>
    rw [decimal?, hread]
    show some (-(n.natAbs : Int)) = some n
    congr 1
    omega
  · next hpos =>
    have hdigits := isDigits_toDigits n.natAbs
    unfold decimal?
    split
    · next rest heq =>
      rw [heq] at hdigits
      cases hdigits
    · rw [hread]
      show some (n.natAbs : Int) = some n
      congr 1
      omega

/-! ## Quoted texts -/

/-- What may stand between quotes: a backslash comes with the character behind it, and all other
characters but the quote stand alone. -/
inductive IsQuotable : List Char → Prop where
  /-- Nothing. -/
  | nil : IsQuotable []
  /-- A character that stands alone. -/
  | plain {c : Char} {rest : List Char} (hquote : c ≠ '"') (hbackslash : c ≠ '\\')
      (hrest : IsQuotable rest) : IsQuotable (c :: rest)
  /-- A backslash with a character. -/
  | escaped {c : Char} {rest : List Char} (hrest : IsQuotable rest) :
      IsQuotable ('\\' :: c :: rest)

/-- No quote stands at the start. -/
theorem IsQuotable.head?_ne_quote {text : List Char} (h : IsQuotable text) :
    text.head? ≠ some '"' := by
  cases h with
  | nil => simp
  | plain hquote => exact fun hhead => hquote (Option.some.inj hhead)
  | escaped => exact fun hhead => absurd (Option.some.inj hhead) (by decide)

/-- A character is kept where the pair does not start. -/
theorem replacePair_cons {first second by_ c : Char} {rest : List Char}
    (h : c = first → rest.head? ≠ some second) :
    replacePair first second by_ (c :: rest) = c :: replacePair first second by_ rest := by
  cases rest with
  | nil => rfl
  | cons d rest =>
    rw [replacePair, if_neg]
    rintro ⟨hc, hd⟩
    exact h hc (by rw [hd]; rfl)

/-- A character that is no backslash is read as itself. -/
theorem unescape_cons {c : Char} (h : c ≠ '\\') (rest : List Char) :
    unescape (c :: rest) = c :: unescape rest := by
  simp [unescape, h]

/-- **Both replacements together read a text from left to right**: escaped quotes are replaced
first, and what is left of the backslashes belongs together as before. -/
theorem replacePair_replacePair {text : List Char} (h : IsQuotable text) :
    replacePair '\\' '\\' '\\' (replacePair '\\' '"' '"' text) = unescape text := by
  induction h with
  | nil => rfl
  | @plain c rest hquote hbackslash hrest ih =>
    rw [replacePair_cons fun hc => absurd hc hbackslash,
      replacePair_cons fun hc => absurd hc hbackslash, ih, unescape_cons hbackslash]
  | @escaped c rest hrest ih =>
    by_cases hquote : c = '"'
    · subst hquote
      rw [replacePair, if_pos ⟨rfl, rfl⟩, replacePair_cons fun hc => absurd hc (by decide), ih,
        unescape]
    · have hnot : (c :: rest).head? ≠ some '"' := fun hhead => hquote (Option.some.inj hhead)
      rw [replacePair_cons fun _ => hnot]
      by_cases hbackslash : c = '\\'
      · -- the second backslash escapes no quote, as none starts the rest
        subst hbackslash
        rw [replacePair_cons fun _ => hrest.head?_ne_quote, replacePair, if_pos ⟨rfl, rfl⟩, ih,
          unescape]
      · have hother : (c :: replacePair '\\' '"' '"' rest).head? ≠ some '\\' :=
          fun hhead => hbackslash (Option.some.inj hhead)
        have hread : unescape ('\\' :: c :: rest) = '\\' :: unescape (c :: rest) := by
          simp [unescape, hquote, hbackslash]
        rw [replacePair_cons fun hc => absurd hc hbackslash, replacePair_cons fun _ => hother,
          replacePair_cons fun hc => absurd hc hbackslash, ih, hread, unescape_cons hbackslash]

/-- An escaped text may stand between quotes. -/
theorem isQuotable_escape (text : List Char) : IsQuotable (escape text) := by
  induction text with
  | nil => exact .nil
  | cons c rest ih =>
    rw [escape]
    split
    · exact .escaped ih
    · next hplain =>
      rw [not_or] at hplain
      exact .plain hplain.1 hplain.2 ih

/-- A quoted text is read as the text. -/
theorem quotedText_quoted (text : List Char) : quotedText (quoted text) = text := by
  rw [quotedText, quoted, List.tail_cons, List.dropLast_concat,
    replacePair_replacePair (isQuotable_escape text), unescape_escape]

/-! ## Dotted names -/

/-- A name has a segment. -/
theorem segments_ne_nil (name : String) : segments name ≠ [] := by
  rw [segments, ne_eq, List.map_eq_nil_iff]
  exact List.splitOn_ne_nil _ _

/-- The segments of a name make up the name. -/
theorem intercalate_segments (name : String) : ".".intercalate (segments name) = name := by
  have hlists : (segments name).map String.toList = name.toList.splitOn '.' := by
    rw [segments, List.map_map]
    exact (List.map_congr_left fun cs _ => String.toList_ofList).trans (List.map_id _)
  rw [← String.toList_inj, String.toList_intercalate, hlists]
  exact List.intercalate_splitOn '.'

end FrancaLint.Source
