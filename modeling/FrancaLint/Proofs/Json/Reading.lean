import FrancaLint.Json.Reader
import Mathlib.Data.String.Basic

/-! # The course of a JSON reader

How the reader of JSON texts goes on, one equation for every kind of value, and what it leaves of a
text.

* `unit?`, with `readChars_of_unit?_eq_some`: escapes for code units are read one or two at a time.
* `readNumber_eq`: the parts of a number.
* `opening_cases`: what a value starts with tells which kind of value it is.
* `readParts` and `readOthers`: arrays and objects are read alike, up to their parts.
* `leavesLess_readValue`: whatever is read, less is left of the text. -/

namespace FrancaLint.Json

/-! ## Code units -/

/-- The code unit at the start of a text, and what is left if there is anything left. -/
def unit? : List Char → Option (Nat × List Char)
  | a :: b :: c :: d :: e :: rest => (codeUnit? a b c d).map (·, e :: rest)
  | _ => none

/-- The code unit of a second escape. -/
def nextUnit? : List Char → Option (Nat × List Char)
  | '\\' :: 'u' :: text => unit? text
  | _ => none

/-- A code unit has four characters, and another one stands behind them. -/
theorem exists_of_unit?_eq_some {text rest : List Char} {unit : Nat}
    (h : unit? text = some (unit, rest)) : ∃ a b c d e more,
      text = a :: b :: c :: d :: e :: more ∧ codeUnit? a b c d = some unit ∧ rest = e :: more := by
  unfold unit? at h
  split at h
  · next a b c d e more =>
    obtain ⟨unit, hunit, hpair⟩ := Option.map_eq_some_iff.mp h
    obtain ⟨rfl, rfl⟩ := Prod.mk.inj hpair
    exact ⟨a, b, c, d, e, more, rfl, hunit, rfl⟩
  · cases h

/-- What is left behind a code unit is shorter. -/
theorem length_lt_of_unit?_eq_some {text rest : List Char} {unit : Nat}
    (h : unit? text = some (unit, rest)) : rest.length < text.length := by
  obtain ⟨a, b, c, d, e, more, rfl, -, rfl⟩ := exists_of_unit?_eq_some h
  simp only [List.length_cons]
  omega

/-- So is what is left behind a second escape. -/
theorem length_lt_of_nextUnit?_eq_some {text rest : List Char} {unit : Nat}
    (h : nextUnit? text = some (unit, rest)) : rest.length < text.length := by
  unfold nextUnit? at h
  split at h
  · next more =>
    have hmore := length_lt_of_unit?_eq_some h
    simp only [List.length_cons]
    omega
  · cases h

/-- Without a code unit, its escape is not read. -/
theorem readChars_of_unit?_eq_none {text : List Char} (h : unit? text = none)
    (opening : List Char) :
    readChars opening ('\\' :: 'u' :: text) = .error ⟨.badUnicodeEscape, opening⟩ := by
  rw [readChars.eq_def]
  split <;> rename_i heq <;> cases heq
  · rw [Option.map_eq_none_iff.mp h]
  · rw [Option.map_eq_none_iff.mp h]
  · rfl
  · next hnot _ _ => exact absurd rfl hnot
  · next hnot _ _ => exact absurd rfl (hnot text rfl)

/-- An escape for a code unit is read together with the one behind it if both make a pair. -/
theorem readChars_of_unit?_eq_some {text rest : List Char} {unit : Nat}
    (h : unit? text = some (unit, rest)) (opening : List Char) :
    readChars opening ('\\' :: 'u' :: text) =
      match nextUnit? rest with
      | none => withChar (unitChar unit) (readChars opening rest)
      | some (low, after) =>
          if isHighSurrogate unit ∧ isLowSurrogate low then
            withChar (pairChar unit low) (readChars opening after)
          else withChar (unitChar unit) (readChars opening rest) := by
  rw [readChars.eq_def]
  split <;> rename_i heq <;> cases heq
  · next a b c d e f g h' i more =>
    obtain ⟨high, hhigh, hpair⟩ := Option.map_eq_some_iff.mp h
    obtain ⟨rfl, rfl⟩ := Prod.mk.inj hpair
    have hnext : nextUnit? ('\\' :: 'u' :: e :: f :: g :: h' :: i :: more) =
      (codeUnit? e f g h').map (·, i :: more) := rfl
    rw [hhigh, hnext]
    cases hlow : codeUnit? e f g h' with
    | none =>
      have hrest : readChars opening ('\\' :: 'u' :: e :: f :: g :: h' :: i :: more) =
          .error ⟨.badUnicodeEscape, opening⟩ :=
        readChars_of_unit?_eq_none (by rw [unit?, hlow, Option.map_none]) opening
      rw [hrest]
      simp [withChar, Except.map]
    | some low =>
      simp only [Option.map_some]
      split <;> split <;> simp_all
  · next a b c d e more hnot =>
    obtain ⟨high, hhigh, hpair⟩ := Option.map_eq_some_iff.mp h
    obtain ⟨rfl, rfl⟩ := Prod.mk.inj hpair
    have hnext : nextUnit? (e :: more) = none := by
      unfold nextUnit?
      split
      · next text heq =>
        obtain ⟨rfl, rfl⟩ := List.cons.inj heq
        refine Option.eq_none_iff_forall_not_mem.mpr fun low hlow => ?_
        obtain ⟨a, b, c, d, e, more, rfl, -, -⟩ := exists_of_unit?_eq_some hlow
        exact hnot a b c d e more rfl rfl
      · rfl
    rw [hhigh, hnext]
  · next hnot =>
    obtain ⟨a, b, c, d, e, more, rfl, -, -⟩ := exists_of_unit?_eq_some h
    exact absurd rfl (hnot a b c d e more)
  · next hnot _ _ => exact absurd rfl hnot
  · next hnot _ _ => exact absurd rfl (hnot text rfl)

/-- A backslash in front of a character other than `u`. -/
theorem readChars_escape {c : Char} (hc : c ≠ 'u') (opening rest : List Char) :
    readChars opening ('\\' :: c :: rest) =
      match escaped? c with
      | none => .error ⟨.badEscape, opening⟩
      | some c => withChar c (readChars opening rest) := by
  rw [readChars]
  all_goals first
    | rfl
    | intros
      contradiction

/-- A character that neither ends a string nor escapes anything. -/
theorem readChars_plain {c : Char} (hquote : c ≠ '"') (hbackslash : c ≠ '\\')
    (opening rest : List Char) : readChars opening (c :: rest) =
      if c.toNat ≤ 0x1F then .error ⟨.controlCharacter, opening⟩
      else withChar c (readChars opening rest) := by
  rw [readChars]
  all_goals
    intros
    contradiction

/-! ## Numbers -/

/-- A text without its minus, and whether there is one. -/
def splitMinus : List Char → Bool × List Char
  | '-' :: body => (true, body)
  | body => (false, body)

/-- An exponent without its sign, and whether it is negative. -/
def splitSign : List Char → Bool × List Char
  | '-' :: body => (true, body)
  | '+' :: body => (false, body)
  | body => (false, body)

/-- An exponent has a sign and digits. -/
theorem exponent?_cons (e : Char) (rest : List Char) : exponent? (e :: rest) =
    if e == 'e' || e == 'E' then
      if ((splitSign rest).2.takeWhile Char.isDigit).isEmpty then none
      else
        some (if (splitSign rest).1 then
            -(digitsValue ((splitSign rest).2.takeWhile Char.isDigit) : Int)
          else digitsValue ((splitSign rest).2.takeWhile Char.isDigit),
          (splitSign rest).2.dropWhile Char.isDigit)
    else none :=
  rfl

/-- A number has a sign, digits, and possibly a fraction and an exponent. -/
theorem readNumber_eq (text : List Char) : readNumber text =
    match wholeDigits? (splitMinus text).2 with
    | none => .error ⟨.expectingValue, text⟩
    | some (whole, rest) =>
        match fractionDigits? rest with
        | some (fraction, rest) =>
            match exponent? rest with
            | some (power, rest) =>
                .ok (.decimal (signed (splitMinus text).1 (digitsValue (whole ++ fraction)))
                  (power - fraction.length), rest)
            | none =>
                .ok (.decimal (signed (splitMinus text).1 (digitsValue (whole ++ fraction)))
                  (-(fraction.length : Int)), rest)
        | none =>
            match exponent? rest with
            | some (power, rest) =>
                .ok (.decimal (signed (splitMinus text).1 (digitsValue whole)) power, rest)
            | none =>
                if maxDigits < whole.length then .error ⟨.tooManyDigits whole.length, text⟩
                else .ok (.integer (signed (splitMinus text).1 (digitsValue whole)), rest) :=
  rfl

/-! ## Items and fields -/

/-- A key between quotes. -/
def readKey (text : List Char) : Except Fault (String × List Char) :=
  match text with
  | '"' :: rest => readString text rest
  | _ => .error ⟨.expectingKey, text⟩

/-- The value behind a colon. -/
def readFieldValue (steps depth : Nat) (text : List Char) : Except Fault (Json × List Char) :=
  match dropBlanks text with
  | ':' :: rest => readValue steps depth (dropBlanks rest)
  | other => .error ⟨.expectingColon, other⟩

/-- Without a quote there is no key. -/
theorem readKey_other {text : List Char} (h : ∀ rest, text ≠ '"' :: rest) :
    readKey text = .error ⟨.expectingKey, text⟩ := by
  rw [readKey]
  exact h

/-- Behind a colon there is a value. -/
theorem readFieldValue_colon {steps depth : Nat} {text rest : List Char}
    (h : dropBlanks text = ':' :: rest) :
    readFieldValue steps depth text = readValue steps depth (dropBlanks rest) := by
  simp only [readFieldValue, h]

/-- Without a colon there is no value. -/
theorem readFieldValue_other {steps depth : Nat} {text : List Char}
    (h : ∀ rest, dropBlanks text ≠ ':' :: rest) :
    readFieldValue steps depth text = .error ⟨.expectingColon, dropBlanks text⟩ := by
  unfold readFieldValue
  split
  · next rest heq => exact absurd heq (h rest)
  · rfl

/-- The parts of a container behind its opening mark: none in front of a closing mark, or some. -/
def readParts {α : Type} (closing : Char) (parts : List Char → Except Fault (List α × List Char))
    (text : List Char) : Except Fault (List α × List Char) :=
  if (dropBlanks text).head? = some closing then .ok ([], (dropBlanks text).tail)
  else parts (dropBlanks text)

/-- What follows the first one of several parts: more of them behind a comma, or a closing mark. -/
def readOthers {α : Type} (closing : Char) (more : List Char → Except Fault (List α × List Char))
    (text : List Char) : Except Fault (List α × List Char) :=
  match dropBlanks text with
  | c :: after =>
      if c = closing then .ok ([], after)
      else if c = ',' then more (dropBlanks after)
      else .error ⟨.expectingComma, dropBlanks text⟩
  | [] => .error ⟨.expectingComma, []⟩

section Parts

variable {α : Type} {closing : Char} {parts more : List Char → Except Fault (List α × List Char)}
  {text after : List Char}

/-- A closing mark ends the parts before there are any. -/
theorem readParts_closing (h : dropBlanks text = closing :: after) :
    readParts closing parts text = .ok ([], after) := by
  rw [readParts, h, List.head?_cons, if_pos rfl, List.tail_cons]

/-- Anything but a closing mark starts the parts. -/
theorem readParts_other (h : ∀ after, dropBlanks text ≠ closing :: after) :
    readParts closing parts text = parts (dropBlanks text) := by
  rw [readParts, if_neg]
  intro hhead
  obtain ⟨after, hafter⟩ := List.head?_eq_some_iff.mp hhead
  exact h after hafter

/-- A closing mark ends the parts. -/
theorem readOthers_closing (h : dropBlanks text = closing :: after) :
    readOthers closing more text = .ok ([], after) := by
  simp only [readOthers, h, if_true]

/-- Behind a comma there are more parts. -/
theorem readOthers_comma (hclosing : ',' ≠ closing) (h : dropBlanks text = ',' :: after) :
    readOthers closing more text = more (dropBlanks after) := by
  simp only [readOthers, h, if_neg hclosing, if_true]

/-- Anything else is a defect. -/
theorem readOthers_other (hclosing : ∀ after, dropBlanks text ≠ closing :: after)
    (hcomma : ∀ after, dropBlanks text ≠ ',' :: after) :
    readOthers closing more text = .error ⟨.expectingComma, dropBlanks text⟩ := by
  unfold readOthers
  split
  · next c after heq =>
    rw [if_neg fun hc => hclosing after (by rw [heq, hc]),
      if_neg fun hc => hcomma after (by rw [heq, hc]), heq]
  · next heq => rw [heq]

end Parts

/-! ## Starts of values -/

/-- The values that are written as words. -/
def literals : List (List Char × Json) :=
  [("null".toList, .null), ("true".toList, .bool true), ("false".toList, .bool false),
   ("NaN".toList, .nonFinite "NaN"), ("Infinity".toList, .nonFinite "Infinity"),
   ("-Infinity".toList, .nonFinite "-Infinity")]

/-- What values start with that are no numbers. -/
def openings : List (List Char) :=
  ['"'] :: ['\x7b'] :: ['['] :: literals.map Prod.fst

/-- No line ends at the start of a value. -/
theorem not_mem_of_mem_openings {front : List Char} (h : front ∈ openings) :
    '\r' ∉ front ∧ '\n' ∉ front := by
  revert front
  decide

/-- A word starts a value. -/
theorem mem_openings_of_mem_literals {literal : List Char × Json} (h : literal ∈ literals) :
    literal.1 ∈ openings :=
  List.mem_cons_of_mem _ (List.mem_cons_of_mem _ (List.mem_cons_of_mem _ (List.mem_map_of_mem h)))

/-- A value is a string, an object, an array, a word, or else a number. -/
theorem opening_cases (text : List Char) :
    (∃ rest, text = '"' :: rest) ∨ (∃ rest, text = '\x7b' :: rest) ∨ (∃ rest, text = '[' :: rest) ∨
      (∃ literal ∈ literals, ∃ rest, text = literal.1 ++ rest) ∨
        ∀ front ∈ openings, ¬ front <+: text := by
  by_cases h : ∃ front ∈ openings, front <+: text
  · obtain ⟨front, hfront, rest, rfl⟩ := h
    simp only [openings, List.mem_cons, List.mem_map] at hfront
    rcases hfront with rfl | rfl | rfl | ⟨literal, hliteral, rfl⟩
    · exact .inl ⟨rest, rfl⟩
    · exact .inr (.inl ⟨rest, rfl⟩)
    · exact .inr (.inr (.inl ⟨rest, rfl⟩))
    · exact .inr (.inr (.inr (.inl ⟨literal, hliteral, rest, rfl⟩)))
  · push Not at h
    exact .inr (.inr (.inr (.inr h)))

/-- A word has a character. -/
theorem length_lt_append_of_mem_literals {literal : List Char × Json} (h : literal ∈ literals)
    (rest : List Char) : rest.length < (literal.1 ++ rest).length := by
  have hne : ∀ front ∈ openings, front ≠ [] := by decide
  rw [List.length_append]
  exact Nat.lt_add_of_pos_left (List.length_pos_of_ne_nil (hne _ (mem_openings_of_mem_literals h)))

/-- A word is read as its value. -/
theorem readValue_literal {literal : List Char × Json} (h : literal ∈ literals)
    (steps depth : Nat) (rest : List Char) :
    readValue (steps + 1) depth (literal.1 ++ rest) = .ok (literal.2, rest) := by
  simp only [literals, List.mem_cons, List.not_mem_nil, or_false] at h
  rcases h with rfl | rfl | rfl | rfl | rfl | rfl <;> rfl

/-- What does not start otherwise is read as a number. -/
theorem readValue_number {text : List Char} (h : ∀ front ∈ openings, ¬ front <+: text)
    (steps depth : Nat) : readValue (steps + 1) depth text = readNumber text := by
  unfold readValue
  split
  case h_1 rest => exact absurd (List.prefix_append ['"'] rest) (h _ (by decide))
  case h_2 rest => exact absurd (List.prefix_append ['\x7b'] rest) (h _ (by decide))
  case h_3 rest => exact absurd (List.prefix_append ['['] rest) (h _ (by decide))
  case h_4 rest => exact absurd (List.prefix_append "null".toList rest) (h _ (by decide))
  case h_5 rest => exact absurd (List.prefix_append "true".toList rest) (h _ (by decide))
  case h_6 rest => exact absurd (List.prefix_append "false".toList rest) (h _ (by decide))
  case h_7 rest => exact absurd (List.prefix_append "NaN".toList rest) (h _ (by decide))
  case h_8 rest => exact absurd (List.prefix_append "Infinity".toList rest) (h _ (by decide))
  case h_9 rest => exact absurd (List.prefix_append "-Infinity".toList rest) (h _ (by decide))
  case h_10 => rfl

/-- An object in none too many containers. -/
theorem readValue_object (steps depth : Nat) (rest : List Char) :
    readValue (steps + 1) (depth + 1) ('\x7b' :: rest) =
      (readParts '\x7d' (readFields steps depth) rest).map fun (fields, after) =>
        (.object fields, after) := by
  unfold readValue
  simp only
  split
  · next after heq =>
    rw [readParts_closing heq]
    rfl
  · next hclosing => rw [readParts_other hclosing]

/-- An array in none too many containers. -/
theorem readValue_array (steps depth : Nat) (rest : List Char) :
    readValue (steps + 1) (depth + 1) ('[' :: rest) =
      (readParts ']' (readItems steps depth) rest).map fun (items, after) =>
        (.array items, after) := by
  unfold readValue
  simp only
  split
  · next after heq =>
    rw [readParts_closing heq]
    rfl
  · next hclosing => rw [readParts_other hclosing]

/-- The items of an array are its first one and the others. -/
theorem readItems_succ (steps depth : Nat) (text : List Char) :
    readItems (steps + 1) depth text =
      readValue steps depth text >>= fun (item, rest) =>
        (readOthers ']' (readItems steps depth) rest).map fun (items, after) =>
          (item :: items, after) := by
  rw [readItems]
  congr 1
  funext ⟨item, rest⟩
  dsimp only
  split
  · next after heq =>
    rw [readOthers_closing heq]
    rfl
  · next after heq =>
    rw [readOthers_comma (by decide) heq]
    cases readItems steps depth (dropBlanks after) <;> rfl
  · next hclosing hcomma =>
    rw [readOthers_other hclosing hcomma]
    rfl

/-- The fields of an object are its first one and the others. -/
theorem readFields_succ (steps depth : Nat) (text : List Char) :
    readFields (steps + 1) depth text =
      readKey text >>= fun (key, rest) => readFieldValue steps depth rest >>= fun (value, rest) =>
        (readOthers '\x7d' (readFields steps depth) rest).map fun (fields, after) =>
          ((key, value) :: fields, after) := by
  unfold readFields
  dsimp only
  split
  · show (_ >>= _) = (readString _ _ >>= _)
    congr 1
    funext ⟨key, rest⟩
    dsimp only
    split
    · next after heq =>
      rw [readFieldValue_colon heq]
      congr 1
      funext ⟨value, rest⟩
      dsimp only
      split
      · next after heq =>
        rw [readOthers_closing heq]
        rfl
      · next after heq =>
        rw [readOthers_comma (by decide) heq]
        cases readFields steps depth (dropBlanks after) <;> rfl
      · next hclosing hcomma =>
        rw [readOthers_other hclosing hcomma]
        rfl
    · next hcolon =>
      rw [readFieldValue_other hcolon]
      rfl
  · next hquote =>
    rw [readKey_other hquote]
    rfl

/-! ## What is left -/

/-- An answer **leaves less** than so many characters: if there is a value, fewer are left. -/
def LeavesLess {α : Type} (n : Nat) (answer : Except Fault (α × List Char)) : Prop :=
  ∀ a rest, answer = .ok (a, rest) → rest.length < n

/-- A value leaves less if what it leaves is shorter. -/
theorem LeavesLess.read {α : Type} {n : Nat} {rest : List Char} (h : rest.length < n) (a : α) :
    LeavesLess n (.ok (a, rest)) := by
  intro b other heq
  cases heq
  exact h

/-- A defect leaves nothing. -/
theorem LeavesLess.fault {α : Type} (n : Nat) (fault : Fault) :
    LeavesLess n (.error fault : Except Fault (α × List Char)) := by
  intro a rest heq
  cases heq

/-- An answer leaves as much when its value is turned into another one. -/
theorem LeavesLess.map {α β : Type} {n : Nat} {answer : Except Fault (α × List Char)}
    (h : LeavesLess n answer) (f : α → β) :
    LeavesLess n (answer.map fun (a, rest) => (f a, rest)) := by
  cases answer with
  | error fault => exact .fault n fault
  | ok pair => exact .read (h pair.1 pair.2 rfl) _

/-- An answer leaves less if what follows a value does. -/
theorem LeavesLess.bind {α β : Type} {n : Nat} {answer : Except Fault (α × List Char)}
    {next : α × List Char → Except Fault (β × List Char)}
    (h : ∀ a rest, answer = .ok (a, rest) → LeavesLess n (next (a, rest))) :
    LeavesLess n (answer >>= next) := by
  cases answer with
  | error fault => exact .fault n fault
  | ok pair => exact h pair.1 pair.2 rfl

/-- An answer that leaves less than a shorter text leaves less than a longer one. -/
theorem LeavesLess.mono {α : Type} {m n : Nat} {answer : Except Fault (α × List Char)}
    (h : LeavesLess m answer) (hle : m ≤ n) : LeavesLess n answer :=
  fun a rest heq => (h a rest heq).trans_le hle

/-- Dropping blanks leaves no more. -/
theorem length_dropBlanks_le (text : List Char) : (dropBlanks text).length ≤ text.length :=
  (List.dropWhile_sublist _).length_le

/-- A string leaves less than its characters and its closing quote. -/
theorem leavesLess_readChars (opening text : List Char) :
    LeavesLess text.length (readChars opening text) := by
  fun_induction readChars opening text
  case case2 rest => exact .read (Nat.lt_succ_self _) _
  case case5 ih | case6 ih | case7 ih | case9 ih | case12 ih | case15 ih =>
    exact (ih.map _).mono (by simp only [List.length_cons]; omega)
  all_goals exact .fault _ _

/-- The digits in front of the point leave less. -/
theorem length_lt_of_wholeDigits? {text digits rest : List Char}
    (h : wholeDigits? text = some (digits, rest)) : rest.length < text.length := by
  unfold wholeDigits? at h
  split at h
  · cases h
    exact Nat.lt_succ_self _
  · split at h
    · cases h
      exact Nat.lt_succ_of_le (List.dropWhile_sublist _).length_le
    · cases h
  · cases h

/-- The digits behind the point leave less. -/
theorem length_lt_of_fractionDigits? {text digits rest : List Char}
    (h : fractionDigits? text = some (digits, rest)) : rest.length < text.length := by
  unfold fractionDigits? at h
  split at h
  · next c more =>
    split at h
    · cases h
      have hdrop := (List.dropWhile_sublist (l := more) Char.isDigit).length_le
      simp only [List.length_cons]
      omega
    · cases h
  · cases h

/-- The sign of an exponent leaves no more. -/
theorem length_splitSign_le (text : List Char) : (splitSign text).2.length ≤ text.length := by
  unfold splitSign
  split <;> simp

/-- An exponent leaves less. -/
theorem length_lt_of_exponent? {text rest : List Char} {power : Int}
    (h : exponent? text = some (power, rest)) : rest.length < text.length := by
  cases text with
  | nil => cases h
  | cons e more =>
    rw [exponent?_cons] at h
    split at h
    · split at h
      · cases h
      · cases h
        have hdrop := (List.dropWhile_sublist (l := (splitSign more).2) Char.isDigit).length_le
        have hsign := length_splitSign_le more
        simp only [List.length_cons]
        omega
    · cases h

/-- A minus leaves no more. -/
theorem length_splitMinus_le (text : List Char) : (splitMinus text).2.length ≤ text.length := by
  unfold splitMinus
  split <;> simp

/-- A number leaves less. -/
theorem leavesLess_readNumber (text : List Char) : LeavesLess text.length (readNumber text) := by
  have hminus := length_splitMinus_le text
  rw [readNumber_eq]
  split
  · exact .fault _ _
  next whole rest hwhole =>
  have hwhole := length_lt_of_wholeDigits? hwhole
  split
  · next fraction rest hfraction =>
    have hfraction := length_lt_of_fractionDigits? hfraction
    split
    · next power rest hpower =>
      have hpower := length_lt_of_exponent? hpower
      exact .read (by omega) _
    · exact .read (by omega) _
  · split
    · next power rest hpower =>
      have hpower := length_lt_of_exponent? hpower
      exact .read (by omega) _
    · split
      · exact .fault _ _
      · exact .read (by omega) _

/-- The other parts of a container leave less if the parts do. -/
theorem leavesLess_readOthers {α : Type} {closing : Char}
    {more : List Char → Except Fault (List α × List Char)}
    (hmore : ∀ text, LeavesLess text.length (more text)) (text : List Char) :
    LeavesLess text.length (readOthers closing more text) := by
  have hblanks := length_dropBlanks_le text
  unfold readOthers
  split
  · next c after heq =>
    rw [heq, List.length_cons] at hblanks
    split
    · exact .read (by omega) _
    split
    · exact (hmore _).mono ((length_dropBlanks_le after).trans (by omega))
    · exact .fault _ _
  · exact .fault _ _

/-- The parts of a container leave less. -/
theorem leavesLess_readParts {α : Type} {closing : Char}
    {parts : List Char → Except Fault (List α × List Char)}
    (hparts : ∀ text, LeavesLess text.length (parts text)) (text : List Char) :
    LeavesLess (text.length + 1) (readParts closing parts text) := by
  have hblanks := length_dropBlanks_le text
  unfold readParts
  split
  · exact .read (by rw [List.length_tail]; omega) _
  · exact (hparts _).mono (by omega)

/-- A key leaves less. -/
theorem leavesLess_readKey (text : List Char) : LeavesLess text.length (readKey text) := by
  unfold readKey
  split
  · next rest => exact ((leavesLess_readChars _ rest).map String.ofList).mono (Nat.le_succ _)
  · exact .fault _ _

/-- The value of a field leaves less. -/
theorem leavesLess_readFieldValue {steps depth : Nat}
    (hvalue : ∀ text, LeavesLess text.length (readValue steps depth text)) (text : List Char) :
    LeavesLess text.length (readFieldValue steps depth text) := by
  have hblanks := length_dropBlanks_le text
  unfold readFieldValue
  split
  · next rest heq =>
    rw [heq, List.length_cons] at hblanks
    exact (hvalue _).mono ((length_dropBlanks_le rest).trans (by omega))
  · exact .fault _ _

/-- What is left of the values, items and fields that are read in some steps is shorter. -/
theorem leavesLess_readValue (steps : Nat) : ∀ depth text,
    LeavesLess text.length (readValue steps depth text) ∧
      LeavesLess text.length (readItems steps depth text) ∧
        LeavesLess text.length (readFields steps depth text) := by
  induction steps with
  | zero =>
    intro depth text
    exact ⟨.fault _ _, .fault _ _, .fault _ _⟩
  | succ steps ih =>
    intro depth text
    refine ⟨?value, ?items, ?fields⟩
    case value =>
      rcases opening_cases text with
        ⟨rest, rfl⟩ | ⟨rest, rfl⟩ | ⟨rest, rfl⟩ | ⟨literal, hliteral, rest, rfl⟩ | hnumber
      · exact (((leavesLess_readChars _ rest).map _).map _).mono (Nat.le_succ _)
      · cases depth with
        | zero => exact .fault _ _
        | succ depth =>
          rw [readValue_object]
          exact (leavesLess_readParts (fun text => (ih depth text).2.2) rest).map _
      · cases depth with
        | zero => exact .fault _ _
        | succ depth =>
          rw [readValue_array]
          exact (leavesLess_readParts (fun text => (ih depth text).2.1) rest).map _
      · rw [readValue_literal hliteral]
        exact .read (length_lt_append_of_mem_literals hliteral rest) _
      · rw [readValue_number hnumber]
        exact leavesLess_readNumber text
    case items =>
      rw [readItems_succ]
      refine .bind fun item rest hitem => ?_
      have hrest := (ih depth text).1 item rest hitem
      exact ((leavesLess_readOthers (fun text => (ih depth text).2.1) rest).map _).mono hrest.le
    case fields =>
      rw [readFields_succ]
      refine .bind fun key rest hkey => .bind fun value left hvalue => ?_
      have hrest := leavesLess_readKey text key rest hkey
      have hleft := leavesLess_readFieldValue (fun text => (ih depth text).1) rest value left hvalue
      exact ((leavesLess_readOthers (fun text => (ih depth text).2.2) left).map _).mono
        (hleft.trans hrest).le

end FrancaLint.Json
