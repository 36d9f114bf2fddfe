import FrancaLint.Proofs.Source.Sentences
import Mathlib.Computability.MyhillNerode

/-! # Languages of phrases

The **language** of a phrase has the terminals of its sentences as words. Words and values do not
matter to it, so it can be compared with a grammar.

* `Phrase.language`, with an equation for every kind of phrase.
* `Phrase.language_after`: what may follow some tokens is the left quotient of the language by their
  terminals.
* `Phrase.mem_starts_iff` and `Phrase.isNever_residual_iff`: which terminals may come first, and
  when nothing may follow a token. -/

namespace FrancaLint.Source

open Computability

/-- The word is the **beginning** of a word of the language. -/
def IsBeginning {σ : Type} (language : Language σ) (word : List σ) : Prop :=
  ∃ rest, word ++ rest ∈ language

namespace Phrase

variable {α β : Type}

/-- The **language** of a phrase: the terminals of its sentences. -/
def language (phrase : Phrase α) : Language Terminal :=
  {word | ∃ ts a, ts.map Token.terminal = word ∧ Yields phrase ts a}

/-- The words of a language are the terminals of sentences. -/
theorem mem_language_iff {phrase : Phrase α} {word : List Terminal} :
    word ∈ phrase.language ↔ ∃ ts a, ts.map Token.terminal = word ∧ Yields phrase ts a :=
  Iff.rfl

/-- Every word of terminals is that of some tokens. -/
theorem exists_map_terminal (word : List Terminal) :
    ∃ ts : List Token, ts.map Token.terminal = word := by
  refine ⟨word.map fun terminal => ⟨terminal, [], {}, {}⟩, ?_⟩
  rw [List.map_map]
  exact List.map_id _

/-- Tokens with the terminals of a sentence are a sentence. -/
theorem exists_yields_of_map_terminal {phrase : Phrase α} {ts us : List Token} {a : α}
    (h : Yields phrase ts a) (hmap : us.map Token.terminal = ts.map Token.terminal) :
    ∃ b, Yields phrase us b := by
  induction h generalizing us with
  | done value =>
    rw [List.map_nil, List.map_eq_nil_iff] at hmap
    exact ⟨value, hmap ▸ .done value⟩
  | token token same =>
    rw [List.map_singleton, List.map_eq_singleton_iff] at hmap
    obtain ⟨other, rfl, hother⟩ := hmap
    exact ⟨other, .token other (hother.trans same)⟩
  | pair _ _ one two =>
    rw [List.map_append] at hmap
    obtain ⟨us, vs, rfl, hus, hvs⟩ := List.map_eq_append_iff.mp hmap
    obtain ⟨a, ha⟩ := one hus
    obtain ⟨b, hb⟩ := two hvs
    exact ⟨(a, b), .pair ha hb⟩
  | left _ one =>
    obtain ⟨a, ha⟩ := one hmap
    exact ⟨a, .left ha⟩
  | right _ one =>
    obtain ⟨a, ha⟩ := one hmap
    exact ⟨a, .right ha⟩
  | none =>
    rw [List.map_nil, List.map_eq_nil_iff] at hmap
    exact ⟨[], hmap ▸ .none⟩
  | more _ _ one rest =>
    rw [List.map_append] at hmap
    obtain ⟨us, vs, rfl, hus, hvs⟩ := List.map_eq_append_iff.mp hmap
    obtain ⟨a, ha⟩ := one hus
    obtain ⟨as, has⟩ := rest hvs
    exact ⟨a :: as, .more ha has⟩
  | via _ one =>
    obtain ⟨a, ha⟩ := one hmap
    exact ⟨_, .via ha⟩

/-- Tokens are a sentence exactly if their terminals are in the language. -/
theorem map_terminal_mem_language_iff {phrase : Phrase α} {ts : List Token} :
    ts.map Token.terminal ∈ phrase.language ↔ ∃ a, Yields phrase ts a := by
  constructor
  · rintro ⟨us, a, hmap, h⟩
    exact exists_yields_of_map_terminal h hmap.symm
  · rintro ⟨a, h⟩
    exact ⟨ts, a, rfl, h⟩

/-! ## Languages by kind of phrase -/

/-- No sentence, no word. -/
@[simp] theorem language_never : (never : Phrase α).language = 0 := by
  ext word
  simp [mem_language_iff]

/-- The empty word. -/
@[simp] theorem language_done (value : α) : (done value).language = 1 := by
  ext word
  simp [mem_language_iff, eq_comm]

/-- One terminal. -/
@[simp] theorem language_token (terminal : Terminal) :
    (token terminal).language = {[terminal]} := by
  ext word
  rw [mem_language_iff]
  constructor
  · rintro ⟨ts, a, rfl, h⟩
    obtain ⟨rfl, same⟩ := yields_token_iff.mp h
    rw [List.map_singleton, same]
    rfl
  · intro h
    obtain rfl : word = [terminal] := h
    exact ⟨[⟨terminal, [], {}, {}⟩], _, rfl, .token _ rfl⟩

/-- One word behind another. -/
@[simp] theorem language_pair (first : Phrase α) (second : Phrase β) :
    (pair first second).language = first.language * second.language := by
  ext word
  rw [Language.mem_mul]
  constructor
  · rintro ⟨ts, ab, rfl, h⟩
    obtain ⟨us, vs, rfl, hfirst, hsecond⟩ := yields_pair_iff.mp h
    exact ⟨_, ⟨us, _, rfl, hfirst⟩, _, ⟨vs, _, rfl, hsecond⟩, List.map_append.symm⟩
  · rintro ⟨_, ⟨us, a, rfl, ha⟩, _, ⟨vs, b, rfl, hb⟩, rfl⟩
    exact ⟨us ++ vs, (a, b), List.map_append, .pair ha hb⟩

/-- The words of both sides. -/
@[simp] theorem language_either (left right : Phrase α) :
    (either left right).language = left.language + right.language := by
  ext word
  rw [Language.mem_add, mem_language_iff]
  simp only [yields_either_iff, mem_language_iff]
  constructor
  · rintro ⟨ts, a, hmap, h | h⟩
    · exact Or.inl ⟨ts, a, hmap, h⟩
    · exact Or.inr ⟨ts, a, hmap, h⟩
  · rintro (⟨ts, a, hmap, h⟩ | ⟨ts, a, hmap, h⟩)
    · exact ⟨ts, a, hmap, Or.inl h⟩
    · exact ⟨ts, a, hmap, Or.inr h⟩

/-- Any number of words. -/
@[simp] theorem language_many (item : Phrase α) : (many item).language = item.language∗ := by
  ext word
  rw [Language.mem_kstar]
  constructor
  · rintro ⟨ts, as, rfl, h⟩
    induction as generalizing ts with
    | nil => exact ⟨[], by rw [yields_many_nil_iff.mp h]; rfl, by simp⟩
    | cons a as ih =>
      obtain ⟨us, vs, rfl, hone, hrest⟩ := yields_many_cons_iff.mp h
      obtain ⟨words, heq, hwords⟩ := ih vs hrest
      refine ⟨us.map Token.terminal :: words, ?_, ?_⟩
      · rw [List.map_append, heq, List.flatten_cons]
      · exact List.forall_mem_cons.mpr ⟨⟨us, a, rfl, hone⟩, hwords⟩
  · rintro ⟨words, rfl, h⟩
    induction words with
    | nil => exact ⟨[], [], rfl, .none⟩
    | cons one words ih =>
      rw [List.forall_mem_cons] at h
      obtain ⟨us, a, rfl, hone⟩ := h.1
      obtain ⟨vs, as, heq, hrest⟩ := ih h.2
      exact ⟨us ++ vs, a :: as, by rw [List.map_append, heq, List.flatten_cons], .more hone hrest⟩

/-- Turning the value keeps the language. -/
@[simp] theorem language_via (f : α → β) (phrase : Phrase α) :
    (via f phrase).language = phrase.language := by
  ext word
  constructor
  · rintro ⟨ts, b, hmap, h⟩
    obtain ⟨a, ha, -⟩ := yields_via_iff.mp h
    exact ⟨ts, a, hmap, ha⟩
  · rintro ⟨ts, a, hmap, h⟩
    exact ⟨ts, f a, hmap, .via h⟩

/-! ## Languages of derived phrases -/

/-- A word that may be left out. -/
@[simp] theorem language_optional (phrase : Phrase α) :
    (optional phrase).language = phrase.language + 1 := by
  simp [optional]

/-- One word behind another, whichever value is kept. -/
@[simp] theorem language_skipThen (first : Phrase β) (second : Phrase α) :
    (skipThen first second).language = first.language * second.language := by
  simp [skipThen]

/-- One word behind another, whichever value is kept. -/
@[simp] theorem language_thenSkip (first : Phrase α) (second : Phrase β) :
    (thenSkip first second).language = first.language * second.language := by
  simp [thenSkip]

/-- The words of several phrases. -/
@[simp] theorem language_oneOf (phrases : List (Phrase α)) :
    (oneOf phrases).language = (phrases.map language).sum := by
  induction phrases with
  | nil => simp [oneOf]
  | cons phrase phrases ih =>
    rw [List.map_cons, List.sum_cons, ← ih]
    simp [oneOf]

/-- A keyword or a mark. -/
@[simp] theorem language_mark (spelling : String) :
    (mark spelling).language = {[.fixed spelling]} :=
  language_token _

/-- A keyword or a mark that may be left out. -/
@[simp] theorem language_flag (spelling : String) :
    (flag spelling).language = {[.fixed spelling]} + 1 := by
  simp [flag]

/-- An identifier. -/
@[simp] theorem language_name : name.language = {[.name]} :=
  language_token _

/-- Words between braces. -/
@[simp] theorem language_braced (phrase : Phrase α) :
    (braced phrase).language =
      {[.fixed "\x7b"]} * (phrase.language * {[.fixed "\x7d"]}) := by
  simp [braced]

/-! ## What may follow -/

/-- What may follow some tokens completes their terminals to words of the language. -/
theorem language_after (phrase : Phrase α) (ts : List Token) :
    (phrase.after ts).language = phrase.language.leftQuotient (ts.map Token.terminal) := by
  ext word
  rw [Language.mem_leftQuotient]
  obtain ⟨us, rfl⟩ := exists_map_terminal word
  rw [← List.map_append, map_terminal_mem_language_iff, map_terminal_mem_language_iff]
  constructor
  · rintro ⟨a, h⟩
    exact ⟨a, yields_of_after h⟩
  · rintro ⟨a, h⟩
    exact exists_yields_after h

/-- What may follow some tokens does not depend on anything but their terminals. -/
theorem language_after_congr (phrase : Phrase α) {ts us : List Token}
    (h : ts.map Token.terminal = us.map Token.terminal) :
    (phrase.after ts).language = (phrase.after us).language := by
  rw [language_after, language_after, h]

/-- The empty word is in the language if the phrase has a value for the empty sentence. -/
theorem isSome_emptyValue?_iff_nil_mem {phrase : Phrase α} :
    phrase.emptyValue?.isSome = true ↔ [] ∈ phrase.language := by
  rw [isSome_emptyValue?_iff, ← List.map_nil (f := Token.terminal), map_terminal_mem_language_iff]

/-- The terminals that may come first are those of the words. -/
theorem mem_starts_iff {phrase : Phrase α} (h : phrase.isProductive = true) {terminal : Terminal} :
    terminal ∈ phrase.starts ↔ IsBeginning phrase.language [terminal] := by
  constructor
  · intro hmem
    obtain ⟨next, ts, a, rfl, hts⟩ := exists_yields_of_mem_starts h hmem
    exact ⟨ts.map Token.terminal, next :: ts, a, rfl, hts⟩
  · rintro ⟨rest, ts, a, hmap, hts⟩
    obtain ⟨next, us, rfl, rfl, -⟩ := List.map_eq_cons_iff.mp hmap
    exact mem_starts_of_yields hts

/-! ## When nothing may follow -/

/-- Turning the value keeps whether a phrase is `never`. -/
@[simp] theorem isNever_viaOrNever (f : α → β) (phrase : Phrase α) :
    (viaOrNever f phrase).isNever = phrase.isNever := by
  cases phrase <;> rfl

/-- Turning the value keeps whether a phrase has a sentence. -/
@[simp] theorem hasSentence_viaOrNever (f : α → β) (phrase : Phrase α) :
    (viaOrNever f phrase).hasSentence = phrase.hasSentence := by
  cases phrase <;> rfl

/-- A phrase other than `never` is not `never`. -/
theorem isNever_eq_false {phrase : Phrase α} (h : phrase ≠ never) : phrase.isNever = false := by
  cases phrase with
  | never => exact absurd rfl h
  | _ => rfl

/-- A choice is `never` if both sides are. -/
@[simp] theorem isNever_eitherOrNever (left right : Phrase α) :
    (eitherOrNever left right).isNever = (left.isNever && right.isNever) := by
  unfold eitherOrNever
  split
  · rfl
  · exact (Bool.and_true _).symm
  · next hleft hright =>
    rw [isNever_eq_false hleft]
    rfl

/-- A choice has a sentence if one of its sides has one. -/
@[simp] theorem hasSentence_eitherOrNever (left right : Phrase α) :
    (eitherOrNever left right).hasSentence = (left.hasSentence || right.hasSentence) := by
  unfold eitherOrNever
  split <;> simp [hasSentence]

/-- A pair whose second part has a sentence is `never` or has one, as its first part is or has. -/
theorem hasSentence_pairOrNever {first : Phrase α} {second : Phrase β}
    (h : first.isNever = false → first.hasSentence = true) (hsecond : second.hasSentence = true)
    (hnever : (pairOrNever first second).isNever = false) :
    (pairOrNever first second).hasSentence = true := by
  unfold pairOrNever at hnever ⊢
  split at hnever
  · cases hnever
  · rwa [hasSentence_viaOrNever]
  · next hfirst _ =>
    rw [hasSentence, h (isNever_eq_false hfirst), hsecond]
    rfl

/-- A residual of a productive phrase is `never` or has a sentence. -/
theorem hasSentence_residual {next : Token} {phrase : Phrase α} (h : phrase.isProductive = true)
    (hnever : (phrase.residual next).isNever = false) :
    (phrase.residual next).hasSentence = true := by
  induction phrase with
  | never => cases hnever
  | done value => cases hnever
  | token terminal =>
    rw [residual] at hnever ⊢
    by_cases hsame : next.terminal = terminal
    · rw [if_pos hsame]
      rfl
    · rw [if_neg hsame] at hnever
      cases hnever
  | pair first second ihFirst ihSecond =>
    simp only [isProductive, Bool.and_eq_true] at h
    obtain ⟨⟨hfirst, hsecond⟩, hsentence⟩ := h
    rw [residual, isNever_eitherOrNever, Bool.and_eq_false_iff] at hnever
    rw [residual, hasSentence_eitherOrNever, Bool.or_eq_true]
    rcases hnever with hnever | hnever
    · exact Or.inl (hasSentence_pairOrNever (ihFirst hfirst) hsentence hnever)
    · right
      split at hnever
      · rw [isNever_viaOrNever] at hnever
        rw [hasSentence_viaOrNever]
        exact ihSecond hsecond hnever
      · cases hnever
  | either left right ihLeft ihRight =>
    rw [isProductive, Bool.and_eq_true] at h
    rw [residual, isNever_eitherOrNever, Bool.and_eq_false_iff] at hnever
    rw [residual, hasSentence_eitherOrNever, Bool.or_eq_true]
    exact hnever.imp (ihLeft h.1) (ihRight h.2)
  | many item ih =>
    rw [residual, isNever_viaOrNever] at hnever
    rw [residual, hasSentence_viaOrNever]
    exact hasSentence_pairOrNever (ih h) rfl hnever
  | via f phrase ih =>
    rw [residual, isNever_viaOrNever] at hnever
    rw [residual, hasSentence_viaOrNever]
    exact ih h hnever

/-- Nothing may follow a token of a productive phrase exactly if no word starts with its
terminal. -/
theorem isNever_residual_iff {next : Token} {phrase : Phrase α} (h : phrase.isProductive = true) :
    (phrase.residual next).isNever = true ↔ ¬ IsBeginning phrase.language [next.terminal] := by
  rw [← Bool.not_eq_false, not_iff_not]
  constructor
  · intro hnever
    obtain ⟨ts, a, hts⟩ := exists_yields_of_hasSentence (hasSentence_residual h hnever)
    exact ⟨ts.map Token.terminal, next :: ts, a, rfl, yields_of_residual hts⟩
  · rintro ⟨rest, hrest⟩
    obtain ⟨ts, rfl⟩ := exists_map_terminal rest
    obtain ⟨a, ha⟩ : ∃ a, Yields phrase (next :: ts) a := map_terminal_mem_language_iff.mp hrest
    obtain ⟨b, hb⟩ := exists_yields_residual ha
    exact isNever_eq_false_of_yields hb

/-- After some tokens of a productive phrase, the terminals that may come next are those that go on
with a word. -/
theorem mem_starts_after_iff {phrase : Phrase α} (h : phrase.isProductive = true) {ts : List Token}
    {terminal : Terminal} : terminal ∈ (phrase.after ts).starts ↔
      IsBeginning phrase.language (ts.map Token.terminal ++ [terminal]) := by
  rw [mem_starts_iff (isProductive_after h ts), language_after]
  simp only [IsBeginning, Language.mem_leftQuotient, List.append_assoc]

/-- After some tokens of a productive phrase, nothing may follow another one exactly if no word goes
on with its terminal. -/
theorem isNever_residual_after_iff {phrase : Phrase α} (h : phrase.isProductive = true)
    {ts : List Token} {next : Token} : ((phrase.after ts).residual next).isNever = true ↔
      ¬ IsBeginning phrase.language (ts.map Token.terminal ++ [next.terminal]) := by
  rw [isNever_residual_iff (isProductive_after h ts), language_after]
  simp only [IsBeginning, Language.mem_leftQuotient, List.append_assoc]

end Phrase

end FrancaLint.Source
