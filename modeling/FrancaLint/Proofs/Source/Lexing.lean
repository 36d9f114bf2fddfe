import FrancaLint.Proofs.Source.FileGrammar
import FrancaLint.Proofs.Source.Reading
import FrancaLint.Proofs.Source.RoundTrip

/-! # The words of a file

Which words a text consists of depends on the grammar: at every place only some terminals are looked
for, and the longest of their matches is picked. It is read if a sentence goes on with it. So every
text has its words, up to the place where it parts from the grammar.

* `LookedFor`, the terminals that are looked for behind others, and `Picks`, the match that is
  picked.
* `Lexes`, the words of a text up to the first one that no sentence goes on with. There is one way
  to read them: `Lexes.unique`.
* `lexes_of_scans`: a scan of a file reads these words. -/

namespace FrancaLint.Source

open Phrase

/-! ## Matches that are picked -/

/-- A terminal is **looked for** behind others if a sentence may go on with it or if, where a dot
may stand, it may stand behind some dotted name. -/
def LookedFor (read : List Terminal) (terminal : Terminal) : Prop :=
  IsBeginning Grammar.start (read ++ [terminal]) ∨
    IsBeginning Grammar.start (read ++ [.fixed "."]) ∧ terminal ∈ behindDottedName

/-- The match of a terminal at the start of a text is **picked** behind others: no terminal that is
looked for has a longer match, or one of the same length where it alone has a fixed spelling. -/
structure Picks (read : List Terminal) (text : List Char) (terminal : Terminal) (length : Nat) :
    Prop where
  /-- The terminal is looked for. -/
  lookedFor : LookedFor read terminal
  /-- The match has this length. -/
  wordLength_eq : terminal.wordLength text = length
  /-- The match has a character. -/
  pos : 0 < length
  /-- The matches of all terminals that are looked for are at most this one. -/
  atMost : ∀ other, LookedFor read other → AtMost (other, other.wordLength text) (terminal, length)

/-- Only one match is picked. -/
theorem Picks.unique {read : List Terminal} {text : List Char} {terminal other : Terminal}
    {length length' : Nat} (h : Picks read text terminal length)
    (h' : Picks read text other length') : terminal = other ∧ length = length' := by
  have hmost := h.atMost other h'.lookedFor
  have hmost' := h'.atMost terminal h.lookedFor
  rw [h'.wordLength_eq] at hmost
  rw [h.wordLength_eq] at hmost'
  obtain ⟨hlength, hfixed⟩ := hmost'.antisymm hmost
  obtain rfl := h.wordLength_eq
  obtain rfl := h'.wordLength_eq
  exact ⟨eq_of_wordLength_eq h.pos hlength hfixed, hlength.symm⟩

section File

variable {path : String} {tokens : List Token} {terminal : Terminal}

/-- The terminals that may follow what has been read of a file are those that a sentence goes on
with. -/
theorem mem_starts_after_draft_iff : terminal ∈ ((draft path).after tokens).starts ↔
    IsBeginning Grammar.start (tokens.map Token.terminal ++ [terminal]) := by
  rw [mem_starts_after_iff (readable_draft path).isProductive, language_draft]

/-- A terminal that may follow what has been read of a file is among those that are looked for. -/
theorem mem_allowedAfter_of_isBeginning
    (h : IsBeginning Grammar.start (tokens.map Token.terminal ++ [terminal])) :
    terminal ∈ allowedAfter ((draft path).after tokens).starts := by
  obtain ⟨rest, hrest⟩ := h
  obtain ⟨us, rfl⟩ := exists_map_terminal rest
  obtain ⟨next, rfl⟩ : ∃ next : Token, next.terminal = terminal :=
    ⟨⟨terminal, [], {}, {}⟩, rfl⟩
  rw [← language_draft path, List.append_assoc, ← List.map_singleton, ← List.map_append,
    ← List.map_append, map_terminal_mem_language_iff] at hrest
  obtain ⟨a, ha⟩ := hrest
  exact (readable_draft path).mem_allowedAfter ha

/-- The terminals among which the scan of a file takes the longest match are those that are looked
for. -/
theorem mem_allowedAfter_iff : terminal ∈ allowedAfter ((draft path).after tokens).starts ↔
    LookedFor (tokens.map Token.terminal) terminal := by
  constructor
  · unfold allowedAfter
    split
    · next hdot =>
      rw [List.contains_iff_mem, mem_starts_after_draft_iff] at hdot
      intro hmem
      rcases List.mem_cons.mp hmem with rfl | hmem
      · exact Or.inl hdot
      · exact Or.inr ⟨hdot, hmem⟩
    · exact fun hmem => Or.inl (mem_starts_after_draft_iff.mp hmem)
  · rintro (hgoes | ⟨hdot, hmem⟩)
    · exact mem_allowedAfter_of_isBeginning hgoes
    · have hstarts : .fixed "." ∈ ((draft path).after tokens).starts :=
        mem_starts_after_draft_iff.mpr hdot
      rw [allowedAfter, if_pos (List.contains_iff_mem.mpr hstarts)]
      exact List.mem_cons_of_mem _ hmem

/-- The longest match that the scan of a file takes is picked. -/
theorem picks_of_longest? {text : List Char} {length : Nat}
    (h : longest? (allowedAfter ((draft path).after tokens).starts) text =
      some (terminal, length)) : Picks (tokens.map Token.terminal) text terminal length := by
  obtain ⟨hmem, hlength, hpos, hmost⟩ := longest?_spec h
  exact ⟨mem_allowedAfter_iff.mp hmem, hlength, hpos,
    fun other hother => hmost other (mem_allowedAfter_iff.mpr hother)⟩

/-- A scan of a file refuses the words that no sentence goes on with. -/
theorem isNever_residual_after_draft_iff {next : Token} :
    (((draft path).after tokens).residual next).isNever = true ↔
      ¬ IsBeginning Grammar.start (tokens.map Token.terminal ++ [next.terminal]) := by
  rw [isNever_residual_after_iff (readable_draft path).isProductive, language_draft]

end File

/-! ## Words of a text -/

/-- The **words** of a text behind some terminals, as tokens from a position on, up to a position
and what is left: the match that is picked is read as long as a sentence goes on with it. -/
inductive Lexes : List Terminal → Position → List Char → List Token → Position → List Char →
    Prop where
  /-- No match is picked with which a sentence goes on. -/
  | stop {read : List Terminal} {pos : Position} {text : List Char}
      (hstop : ∀ terminal length, Picks read (dropLayout text).2 terminal length →
        ¬ IsBeginning Grammar.start (read ++ [terminal])) : Lexes read pos text [] pos text
  /-- The match that is picked is read. -/
  | word {read : List Terminal} {pos stop : Position} {text rest left : List Char} {token : Token}
      {tokens : List Token} (htaken : Taken pos text token rest)
      (hpicks : Picks read (dropLayout text).2 token.terminal token.lexeme.length)
      (hgoes : IsBeginning Grammar.start (read ++ [token.terminal]))
      (hrest : Lexes (read ++ [token.terminal]) token.stop rest tokens stop left) :
      Lexes read pos text (token :: tokens) stop left

/-- One token of one length is taken from the start of a text. -/
theorem Taken.unique {pos : Position} {text rest rest' : List Char} {token other : Token}
    (h : Taken pos text token rest) (h' : Taken pos text other rest')
    (hterminal : token.terminal = other.terminal)
    (hlength : token.lexeme.length = other.lexeme.length) : token = other ∧ rest = rest' := by
  obtain ⟨hlexeme, hrest⟩ := List.append_inj (h.body_eq.symm.trans h'.body_eq) hlength
  have hstart := h.start_eq.trans h'.start_eq.symm
  have hstop : token.stop = other.stop := by rw [h.stop_eq, h'.stop_eq, hstart, hlexeme]
  obtain ⟨terminal, lexeme, start, stop⟩ := token
  obtain ⟨terminal', lexeme', start', stop'⟩ := other
  cases hterminal
  cases hlexeme
  cases hstart
  cases hstop
  exact ⟨rfl, hrest⟩

/-- There is one way to read the words of a text. -/
theorem Lexes.unique {read : List Terminal} {pos stop stop' : Position}
    {text left left' : List Char} {tokens tokens' : List Token}
    (h : Lexes read pos text tokens stop left) (h' : Lexes read pos text tokens' stop' left') :
    tokens = tokens' ∧ stop = stop' ∧ left = left' := by
  induction h generalizing tokens' with
  | stop hstop =>
    cases h' with
    | stop _ => exact ⟨rfl, rfl, rfl⟩
    | word _ hpicks hgoes _ => exact absurd hgoes (hstop _ _ hpicks)
  | word htaken hpicks hgoes _ ih =>
    cases h' with
    | stop hstop => exact absurd hgoes (hstop _ _ hpicks)
    | word htaken' hpicks' _ hrest' =>
      obtain ⟨hterminal, hlength⟩ := hpicks.unique hpicks'
      obtain ⟨rfl, rfl⟩ := htaken.unique htaken' hterminal hlength
      obtain ⟨rfl, rfl, rfl⟩ := ih hrest'
      exact ⟨rfl, rfl, rfl⟩

section Course

variable {path : String} {ts : List Token} {last pos : Position} {text : List Char}
  {outcome : Outcome Draft}

/-- Where a scan of a file ends, no match is picked with which a sentence goes on. -/
theorem not_isBeginning_of_ends (h : Ends ((draft path).after ts) last pos text outcome)
    {terminal : Terminal} {length : Nat}
    (hpicks : Picks (ts.map Token.terminal) (dropLayout text).2 terminal length) :
    ¬ IsBeginning Grammar.start (ts.map Token.terminal ++ [terminal]) := by
  have hpos : 0 < terminal.wordLength (dropLayout text).2 := hpicks.wordLength_eq ▸ hpicks.pos
  have hbody := ne_nil_of_wordLength_pos hpos
  cases h with
  | accepted hnil _ => exact absurd hnil hbody
  | unfinished hnil _ => exact absurd hnil hbody
  | stuck _ hnone =>
    have hzero := wordLength_of_longest?_eq_none hnone (mem_allowedAfter_iff.mpr hpicks.lookedFor)
    exact absurd hzero hpos.ne'
  | refused hlongest hnever =>
    obtain ⟨rfl, -⟩ := hpicks.unique (picks_of_longest? hlongest)
    exact isNever_residual_after_draft_iff.mp hnever

/-- A scan of a file reads the words of the text and ends behind them, in front of what may follow
them. -/
theorem lexes_of_scans {tokens : List Token}
    (h : Scans ((draft path).after ts) last pos text tokens outcome) :
    ∃ stop left, Lexes (ts.map Token.terminal) pos text tokens stop left ∧
      Ends ((draft path).after (ts ++ tokens)) (lastStart last tokens) stop left outcome := by
  generalize hphrase : (draft path).after ts = current at h
  induction h generalizing ts with
  | ends hends =>
    subst hphrase
    rw [List.append_nil]
    exact ⟨_, _, .stop fun _ _ => not_isBeginning_of_ends hends, hends⟩
  | @word current last pos text rest token tokens outcome htaken hlongest hnext _ ih =>
    subst hphrase
    obtain ⟨stop, left, hlexes, hends⟩ := ih (after_concat _ ts token)
    have hgoes : IsBeginning Grammar.start (ts.map Token.terminal ++ [token.terminal]) := by
      by_contra hnot
      have hnever : (((draft path).after ts).residual token).isNever = true :=
        isNever_residual_after_draft_iff.mpr hnot
      rw [hnext] at hnever
      cases hnever
    have hpicks := picks_of_longest? hlongest
    rw [← htaken.body_eq] at hpicks
    rw [List.map_append, List.map_singleton] at hlexes
    rw [List.append_assoc, List.singleton_append, ← lastStart_cons last] at hends
    exact ⟨stop, left, .word htaken hpicks hgoes hlexes, hends⟩

end Course

end FrancaLint.Source
