import FrancaLint.Text.Encoding
import Mathlib.Data.String.Basic
import Mathlib.Tactic.Tauto

/-! # Bytes of texts

Bytes are text in UTF-8 exactly if they are the bytes of the characters of a text.

* `utf8Step_utf8CharBytes` and `exists_of_utf8Step`: one step reads the bytes of one character, and
  nothing else.
* `decode_utf8_eq_ok_iff`: decoding undoes encoding, and only that. -/

namespace FrancaLint

/-! ## Ranges of bytes -/

/-- A byte that continues a character is in the second quarter of the upper half. -/
theorem isContinuation_iff {byte : UInt8} :
    isContinuation byte = true ↔ 0x80 ≤ byte.toNat ∧ byte.toNat < 0xC0 := by
  simp [isContinuation, UInt8.le_iff_toNat_le, UInt8.lt_iff_toNat_lt]

/-- The second of three bytes is in range if the character is neither too small nor a surrogate. -/
theorem isSecondOfThree_iff {first second : UInt8} :
    isSecondOfThree first second = true ↔ (0x80 ≤ second.toNat ∧ second.toNat < 0xC0) ∧
      (first.toNat = 0xE0 → 0xA0 ≤ second.toNat) ∧
        (first.toNat = 0xED → second.toNat < 0xA0) := by
  simp [isSecondOfThree, isContinuation_iff, UInt8.le_iff_toNat_le, UInt8.lt_iff_toNat_lt,
    ← UInt8.toNat_inj, and_assoc]
  tauto

/-- The second of four bytes is in range if the character is neither too small nor too large. -/
theorem isSecondOfFour_iff {first second : UInt8} :
    isSecondOfFour first second = true ↔ (0x80 ≤ second.toNat ∧ second.toNat < 0xC0) ∧
      (first.toNat = 0xF0 → 0x90 ≤ second.toNat) ∧
        (first.toNat = 0xF4 → second.toNat < 0x90) := by
  simp [isSecondOfFour, isContinuation_iff, UInt8.le_iff_toNat_le, UInt8.lt_iff_toNat_lt,
    ← UInt8.toNat_inj, and_assoc]
  tauto

/-! ## One character -/

/-- The bytes of the character of a number, if they are given by their numbers. -/
theorem utf8CharBytes_ofNat {n : Nat} (hn : n.isValidChar) : utf8CharBytes (Char.ofNat n) =
    if n < 0x80 then [UInt8.ofNat n]
    else if n < 0x800 then [UInt8.ofNat (0xC0 + n / 64), UInt8.ofNat (0x80 + n % 64)]
    else if n < 0x10000 then
      [UInt8.ofNat (0xE0 + n / 4096), UInt8.ofNat (0x80 + n / 64 % 64),
        UInt8.ofNat (0x80 + n % 64)]
    else
      [UInt8.ofNat (0xF0 + n / 262144), UInt8.ofNat (0x80 + n / 4096 % 64),
        UInt8.ofNat (0x80 + n / 64 % 64), UInt8.ofNat (0x80 + n % 64)] := by
  have hcode : (Char.ofNat n).toNat = n := by
    rw [Char.ofNat, dif_pos hn]
    rfl
  rw [utf8CharBytes, hcode]

/-- A byte is given by its number. -/
theorem ofNat_eq_of_toNat {n : Nat} (b : UInt8) (h : n = b.toNat) : UInt8.ofNat n = b := by
  rw [h, UInt8.ofNat_toNat]

/-- Two bytes in range are those of the character of their bits. -/
theorem utf8CharBytes_two {first b : UInt8} (hlow : 0xC2 ≤ first.toNat) (hhigh : first.toNat < 0xE0)
    (hb : isContinuation b = true) :
    utf8CharBytes (charOfBits (first.toNat - 0xC0) [b]) = [first, b] := by
  rw [isContinuation_iff] at hb
  rw [charOfBits, List.foldl_cons, List.foldl_nil, utf8CharBytes_ofNat (.inl (by omega)),
    if_neg (by omega), if_pos (by omega), ofNat_eq_of_toNat first (by omega),
    ofNat_eq_of_toNat b (by omega)]

/-- Three bytes in range are those of the character of their bits. -/
theorem utf8CharBytes_three {first b c : UInt8} (hlow : 0xE0 ≤ first.toNat)
    (hhigh : first.toNat < 0xF0) (hb : isSecondOfThree first b = true)
    (hc : isContinuation c = true) :
    utf8CharBytes (charOfBits (first.toNat - 0xE0) [b, c]) = [first, b, c] := by
  rw [isContinuation_iff] at hc
  rw [isSecondOfThree_iff] at hb
  rw [charOfBits, List.foldl_cons, List.foldl_cons, List.foldl_nil,
    utf8CharBytes_ofNat (by rw [Nat.isValidChar]; omega), if_neg (by omega), if_neg (by omega),
    if_pos (by omega), ofNat_eq_of_toNat first (by omega),
    ofNat_eq_of_toNat b (by omega), ofNat_eq_of_toNat c (by omega)]

/-- Four bytes in range are those of the character of their bits. -/
theorem utf8CharBytes_four {first b c d : UInt8} (hlow : 0xF0 ≤ first.toNat)
    (hhigh : first.toNat < 0xF5) (hb : isSecondOfFour first b = true)
    (hc : isContinuation c = true) (hd : isContinuation d = true) :
    utf8CharBytes (charOfBits (first.toNat - 0xF0) [b, c, d]) = [first, b, c, d] := by
  rw [isContinuation_iff] at hc hd
  rw [isSecondOfFour_iff] at hb
  rw [charOfBits, List.foldl_cons, List.foldl_cons, List.foldl_cons, List.foldl_nil,
    utf8CharBytes_ofNat (by rw [Nat.isValidChar]; omega), if_neg (by omega), if_neg (by omega),
    if_neg (by omega), ofNat_eq_of_toNat first (by omega),
    ofNat_eq_of_toNat b (by omega), ofNat_eq_of_toNat c (by omega),
    ofNat_eq_of_toNat d (by omega)]

/-- What a step takes for a character are the bytes of the character. -/
theorem exists_of_utf8Step {first : UInt8} {rest : List UInt8} {c : Char} {length : Nat}
    (h : utf8Step first rest = .char c length) :
    ∃ more, first :: rest = utf8CharBytes c ++ more := by
  revert h
  fun_cases utf8Step first rest <;> intro h
  case case1 hone =>
    obtain ⟨rfl, rfl⟩ := Utf8Step.char.inj h
    have hone : first.toNat < 0x80 := UInt8.lt_iff_toNat_lt.mp hone
    rw [utf8CharBytes_ofNat (.inl (by omega)), if_pos hone, UInt8.ofNat_toNat]
    exact ⟨rest, rfl⟩
  case case4 hlow hhigh b more hb =>
    obtain ⟨rfl, rfl⟩ := Utf8Step.char.inj h
    rw [utf8CharBytes_two (UInt8.le_iff_toNat_le.mp (UInt8.not_lt.mp hlow))
      (UInt8.lt_iff_toNat_lt.mp hhigh) hb]
    exact ⟨more, rfl⟩
  case case9 hlow hhigh b hb c more hc =>
    obtain ⟨rfl, rfl⟩ := Utf8Step.char.inj h
    rw [utf8CharBytes_three (UInt8.le_iff_toNat_le.mp (UInt8.not_lt.mp hlow))
      (UInt8.lt_iff_toNat_lt.mp hhigh) (by simpa using hb) hc]
    exact ⟨more, rfl⟩
  case case16 hlow hhigh b hb c hc d more hd =>
    obtain ⟨rfl, rfl⟩ := Utf8Step.char.inj h
    rw [utf8CharBytes_four (UInt8.le_iff_toNat_le.mp (UInt8.not_lt.mp hlow))
      (UInt8.lt_iff_toNat_lt.mp hhigh) (by simpa using hb) (by simpa using hc) hd]
    exact ⟨more, rfl⟩
  -- the others are faults
  all_goals nomatch h

/-- Two bytes in range are taken for the character of their bits. -/
theorem utf8Step_two {first b : UInt8} (rest : List UInt8) (hlow : 0xC2 ≤ first.toNat)
    (hhigh : first.toNat < 0xE0) (hb : isContinuation b = true) :
    utf8Step first (b :: rest) = .char (charOfBits (first.toNat - 0xC0) [b]) 2 := by
  simp only [utf8Step, UInt8.lt_iff_toNat_lt, UInt8.reduceToNat]
  rw [if_neg (by omega), if_neg (by omega), if_pos hhigh, if_pos hb]

/-- Three bytes in range are taken for the character of their bits. -/
theorem utf8Step_three {first b c : UInt8} (rest : List UInt8) (hlow : 0xE0 ≤ first.toNat)
    (hhigh : first.toNat < 0xF0) (hb : isSecondOfThree first b = true)
    (hc : isContinuation c = true) :
    utf8Step first (b :: c :: rest) = .char (charOfBits (first.toNat - 0xE0) [b, c]) 3 := by
  simp only [utf8Step, UInt8.lt_iff_toNat_lt, UInt8.reduceToNat]
  rw [if_neg (by omega), if_neg (by omega), if_neg (by omega), if_pos hhigh, if_neg (by simp [hb]),
    if_pos hc]

/-- Four bytes in range are taken for the character of their bits. -/
theorem utf8Step_four {first b c d : UInt8} (rest : List UInt8) (hlow : 0xF0 ≤ first.toNat)
    (hhigh : first.toNat < 0xF5) (hb : isSecondOfFour first b = true)
    (hc : isContinuation c = true) (hd : isContinuation d = true) :
    utf8Step first (b :: c :: d :: rest) = .char (charOfBits (first.toNat - 0xF0) [b, c, d]) 4 := by
  simp only [utf8Step, UInt8.lt_iff_toNat_lt, UInt8.reduceToNat]
  rw [if_neg (by omega), if_neg (by omega), if_neg (by omega), if_neg (by omega), if_pos hhigh,
    if_neg (by simp [hb]), if_neg (by simp [hc]), if_pos hd]

/-- The bytes of a character are taken for the character. -/
theorem utf8Step_utf8CharBytes (c : Char) (rest : List UInt8) :
    ∃ first more, utf8CharBytes c = first :: more ∧
      utf8Step first (more ++ rest) = .char c (more.length + 1) := by
  have hvalid : c.toNat < 0xD800 ∨ 0xDFFF < c.toNat ∧ c.toNat < 0x110000 := c.valid
  have hbyte : ∀ n, n < 0x100 → (UInt8.ofNat n).toNat = n := fun n => UInt8.toNat_ofNat_of_lt'
  have hchar : ∀ n, n = c.toNat → Char.ofNat n = c := fun n hn => by rw [hn, c.ofNat_toNat]
  unfold utf8CharBytes
  simp only
  split
  · next hone =>
    refine ⟨_, [], rfl, ?_⟩
    simp only [utf8Step, UInt8.lt_iff_toNat_lt, UInt8.reduceToNat]
    rw [hbyte _ (by omega), if_pos hone, hchar _ rfl, List.length_nil]
  split
  · next hone htwo =>
    have hfirst := hbyte (0xC0 + c.toNat / 64) (by omega)
    have hb := hbyte (0x80 + c.toNat % 64) (by omega)
    refine ⟨_, [_], rfl, ?_⟩
    rw [List.singleton_append, utf8Step_two rest (by omega) (by omega)
      (isContinuation_iff.mpr (by omega)), charOfBits, List.foldl_cons, List.foldl_nil,
      hchar _ (by omega), List.length_singleton]
  split
  · next hone htwo hthree =>
    have hfirst := hbyte (0xE0 + c.toNat / 4096) (by omega)
    have hb := hbyte (0x80 + c.toNat / 64 % 64) (by omega)
    have hc := hbyte (0x80 + c.toNat % 64) (by omega)
    refine ⟨_, [_, _], rfl, ?_⟩
    rw [List.cons_append, List.singleton_append, utf8Step_three rest (by omega) (by omega)
      (isSecondOfThree_iff.mpr (by omega)) (isContinuation_iff.mpr (by omega)), charOfBits,
      List.foldl_cons, List.foldl_cons, List.foldl_nil, hchar _ (by omega)]
    rfl
  · next hone htwo hthree =>
    have hfirst := hbyte (0xF0 + c.toNat / 262144) (by omega)
    have hb := hbyte (0x80 + c.toNat / 4096 % 64) (by omega)
    have hc := hbyte (0x80 + c.toNat / 64 % 64) (by omega)
    have hd := hbyte (0x80 + c.toNat % 64) (by omega)
    refine ⟨_, [_, _, _], rfl, ?_⟩
    rw [List.cons_append, List.cons_append, List.singleton_append,
      utf8Step_four rest (by omega) (by omega) (isSecondOfFour_iff.mpr (by omega))
        (isContinuation_iff.mpr (by omega)) (isContinuation_iff.mpr (by omega)), charOfBits,
      List.foldl_cons, List.foldl_cons, List.foldl_cons, List.foldl_nil, hchar _ (by omega)]
    rfl

/-- A character has a byte. -/
theorem length_utf8CharBytes_pos (c : Char) : 0 < (utf8CharBytes c).length := by
  obtain ⟨first, more, hbytes, -⟩ := utf8Step_utf8CharBytes c []
  rw [hbytes]
  exact Nat.succ_pos _

/-! ## Texts -/

/-- A value that is turned into another one is there. -/
theorem exists_of_map_eq_ok {ε α β : Type} {f : α → β} {answer : Except ε α} {b : β}
    (h : answer.map f = .ok b) : ∃ a, answer = .ok a ∧ f a = b := by
  cases answer with
  | error e => cases h
  | ok a => exact ⟨a, rfl, Except.ok.inj h⟩

/-- The bytes of a character that has been read are skipped. -/
theorem decodeUtf8_skip (position skipped : Nat) (bytes : List UInt8) :
    decodeUtf8 position skipped bytes =
      decodeUtf8 (position + skipped) 0 (bytes.drop skipped) := by
  induction skipped generalizing position bytes with
  | zero => rfl
  | succ skipped ih =>
    cases bytes with
    | nil => rfl
    | cons byte rest =>
      rw [decodeUtf8, ih, List.drop_succ_cons, Nat.add_assoc, Nat.add_comm 1]

/-- The bytes of a character are decoded first, and then those behind them. -/
theorem decodeUtf8_append (position : Nat) (c : Char) (rest : List UInt8) :
    decodeUtf8 position 0 (utf8CharBytes c ++ rest) =
      (decodeUtf8 (position + (utf8CharBytes c).length) 0 rest).map (c :: ·) := by
  obtain ⟨first, more, hbytes, hstep⟩ := utf8Step_utf8CharBytes c rest
  rw [hbytes, List.cons_append, decodeUtf8]
  simp only [hstep, Nat.add_sub_cancel]
  rw [decodeUtf8_skip, List.drop_left, List.length_cons, Nat.add_assoc, Nat.add_comm 1]

/-- The bytes of a text are decoded as its characters. -/
theorem decodeUtf8_flatMap (position : Nat) (chars : List Char) :
    decodeUtf8 position 0 (chars.flatMap utf8CharBytes) = .ok chars := by
  induction chars generalizing position with
  | nil => rfl
  | cons c chars ih =>
    rw [List.flatMap_cons, decodeUtf8_append, ih]
    rfl

/-- What is decoded are the bytes of the characters. -/
theorem eq_flatMap_of_decodeUtf8 {position : Nat} {bytes : List UInt8} {chars : List Char}
    (h : decodeUtf8 position 0 bytes = .ok chars) : bytes = chars.flatMap utf8CharBytes := by
  induction hlength : bytes.length using Nat.strong_induction_on generalizing position bytes chars
    with
  | _ n ih =>
    cases bytes with
    | nil =>
      rw [decodeUtf8] at h
      cases h
      rfl
    | cons first rest =>
      have hdecode := h
      rw [decodeUtf8] at h
      split at h
      · next c length hstep =>
        obtain ⟨more, hbytes⟩ := exists_of_utf8Step hstep
        rw [hbytes, decodeUtf8_append] at hdecode
        obtain ⟨others, hothers, rfl⟩ := exists_of_map_eq_ok hdecode
        have hshort : more.length < (first :: rest).length := by
          rw [hbytes, List.length_append]
          exact Nat.lt_add_of_pos_left (length_utf8CharBytes_pos c)
        rw [hbytes, List.flatMap_cons, ← ih _ (hlength ▸ hshort) hothers rfl]
      · cases h

/-- **Bytes are decoded as a text exactly if they are its bytes.** -/
theorem decode_utf8_eq_ok_iff {bytes : List UInt8} {text : String} :
    Encoding.utf8.decode bytes = .ok text ↔ bytes = utf8Bytes text := by
  unfold Encoding.decode utf8Bytes
  constructor
  · intro h
    obtain ⟨chars, hchars, rfl⟩ := exists_of_map_eq_ok h
    rw [String.toList_ofList]
    exact eq_flatMap_of_decodeUtf8 hchars
  · rintro rfl
    simp only [decodeUtf8_flatMap]
    exact congrArg Except.ok String.ofList_toList

end FrancaLint
