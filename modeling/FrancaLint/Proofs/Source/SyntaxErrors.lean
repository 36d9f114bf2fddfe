import FrancaLint.Proofs.Source.Lexing

/-! # Syntax errors

A text is read without a syntax error exactly if its words are a sentence of the grammar. A syntax
error is reported at the first word that cannot follow what has been read, where no word can follow,
or at the last word of a text that ends too early.

* `IsParsed`, results that are no syntax error: `isParsed_document`, there is none behind the scan.
* `BreaksOff`, the place where a text and the grammar part.
* `Document.ofSource_follows_grammar`: the sentences of the grammar and the places of syntax
  errors. -/

namespace FrancaLint

open Source Phrase

namespace Source

/-! ## Behind the scan -/

/-- The result is no syntax error. -/
def IsParsed {α : Type} (result : Except Fault α) : Prop :=
  ∀ at_, result ≠ .error (.syntaxError at_)

/-- A value is no syntax error. -/
theorem isParsed_ok {α : Type} (value : α) : IsParsed (.ok value) :=
  fun _ h => by cases h

/-- What goes on without a syntax error after a result that is none has none. -/
theorem IsParsed.bind {α β : Type} {result : Except Fault α} {next : α → Except Fault β}
    (h : IsParsed result) (hnext : ∀ value, IsParsed (next value)) :
    IsParsed (result >>= next) := by
  cases result with
  | ok value => exact hnext value
  | error fault =>
    intro at_ heq
    exact h at_ (congrArg Except.error (Except.error.inj heq))

/-- Neither has a list of results without syntax errors. -/
theorem isParsed_mapM {α β : Type} {f : α → Except Fault β} (h : ∀ item, IsParsed (f item))
    (items : List α) : IsParsed (items.mapM f) := by
  induction items with
  | nil => exact isParsed_ok []
  | cons item items ih =>
    rw [List.mapM_cons]
    exact (h item).bind fun _ => ih.bind fun _ => isParsed_ok _

/-- A version may be bad, but that is no matter of the syntax. -/
theorem isParsed_versionNumbers (version : Option VersionText) :
    IsParsed (versionNumbers version) := by
  intro at_
  cases version with
  | none => exact isParsed_ok none at_
  | some version =>
    rw [versionNumbers, VersionText.numbers]
    split <;> exact fun h => by cases h

/-- The document of a draft. -/
theorem isParsed_document (draft : Draft) (path : String) (digest : Option String) :
    IsParsed (draft.document path digest) := by
  have helement : ∀ definition : Definition, IsParsed definition.element := by
    intro definition
    cases definition with
    | collection c version =>
      exact (isParsed_versionNumbers version).bind fun _ => isParsed_ok _
    | interface i version =>
      exact (isParsed_versionNumbers version).bind fun _ => isParsed_ok _
  refine (isParsed_mapM helement draft.definitions).bind fun elements at_ => ?_
  dsimp only
  split
  · exact fun h => by cases h
  · exact isParsed_ok _ at_

/-! ## In front of the end -/

/-- A text **breaks off** behind the tokens that are read of it, at a position: there the grammar
and the text part. -/
inductive BreaksOff (tokens : List Token) (stop : Position) (left : List Char) :
    Position → Prop where
  /-- A word is picked there that no sentence goes on with. -/
  | refused {terminal : Terminal} {length : Nat}
      (hpicks : Picks (tokens.map Token.terminal) (dropLayout left).2 terminal length)
      (hnot : ¬ IsBeginning Grammar.start (tokens.map Token.terminal ++ [terminal])) :
      BreaksOff tokens stop left (stop.advance (dropLayout left).1)
  /-- Something stands there that is no word which could follow. -/
  | stuck (hbody : (dropLayout left).2 ≠ [])
      (hnone : ∀ other, LookedFor (tokens.map Token.terminal) other →
        other.wordLength (dropLayout left).2 = 0) :
      BreaksOff tokens stop left (stop.advance (dropLayout left).1)
  /-- The text ends too early, and the position is that of its last word. -/
  | unfinished (hbody : (dropLayout left).2 = [])
      (hnot : tokens.map Token.terminal ∉ Grammar.start)
      (hproper : ∃ rest, rest ≠ [] ∧ tokens.map Token.terminal ++ rest ∈ Grammar.start) :
      BreaksOff tokens stop left (lastStart {} tokens)

section Course

variable {path : String} {tokens : List Token} {stop : Position} {left : List Char}

/-- The tokens of a text are the beginning of a sentence of the grammar. -/
theorem isBeginning_scanFile (path text : String) :
    IsBeginning Grammar.start ((scanFile path text).1.map Token.terminal) := by
  have hempty : IsBeginning (draft path).language (([] : List Token).map Token.terminal) := by
    have hsentence : (draft path).hasSentence = true := by cbv
    obtain ⟨ts, a, hts⟩ := exists_yields_of_hasSentence hsentence
    exact ⟨ts.map Token.terminal, map_terminal_mem_language_iff.mpr ⟨a, hts⟩⟩
  rw [← language_draft path]
  exact (scans_scanFile path text).isBeginning (readable_draft path).isProductive hempty

/-- The phrase of what may follow some tokens has the empty sentence if these are a sentence. -/
theorem isSome_emptyValue?_after_draft_iff (path : String) (tokens : List Token) :
    ((draft path).after tokens).emptyValue?.isSome = true ↔
      tokens.map Token.terminal ∈ Grammar.start := by
  rw [isSome_emptyValue?_iff_nil_mem, language_after, Language.mem_leftQuotient, List.append_nil,
    language_draft]

/-- The scan of a file is accepted exactly if it has read a sentence up to the end. -/
theorem exists_accepted_iff_of_ends {outcome : Outcome Draft}
    (h : Ends ((draft path).after tokens) (lastStart {} tokens) stop left outcome) :
    (∃ value, outcome = .accepted value) ↔
      (dropLayout left).2 = [] ∧ tokens.map Token.terminal ∈ Grammar.start := by
  rw [← isSome_emptyValue?_after_draft_iff path]
  cases h with
  | accepted hbody hvalue => simp [hbody, hvalue]
  | unfinished hbody hvalue => simp [hvalue]
  | stuck hbody hnone => simp [hbody]
  | refused hlongest hnever =>
    obtain ⟨-, hlength, hpos, -⟩ := longest?_spec hlongest
    have hbody := ne_nil_of_wordLength_pos (hlength ▸ hpos)
    simp [hbody]

/-- The scan of a file that stops at a word, or where none is, breaks off there. -/
theorem breaksOff_of_ends_unexpected {word : Option Terminal} {at_ : Position}
    (h : Ends ((draft path).after tokens) (lastStart {} tokens) stop left (.unexpected word at_)) :
    BreaksOff tokens stop left at_ := by
  cases h with
  | stuck hbody hnone =>
    exact .stuck hbody fun other hother =>
      wordLength_of_longest?_eq_none hnone (mem_allowedAfter_iff.mpr hother)
  | refused hlongest hnever =>
    exact .refused (picks_of_longest? hlongest) (isNever_residual_after_draft_iff.mp hnever)

/-- The scan of a file that comes to its end too early breaks off there. -/
theorem breaksOff_of_ends_unfinished {at_ : Position}
    (hbeginning : IsBeginning Grammar.start (tokens.map Token.terminal))
    (h : Ends ((draft path).after tokens) (lastStart {} tokens) stop left (.unfinished at_)) :
    BreaksOff tokens stop left at_ := by
  cases h with
  | unfinished hbody hvalue =>
    have hnot : tokens.map Token.terminal ∉ Grammar.start := by
      rw [← isSome_emptyValue?_after_draft_iff path, hvalue]
      exact Bool.false_ne_true
    obtain ⟨rest, hrest⟩ := hbeginning
    refine .unfinished hbody hnot ⟨rest, ?_, hrest⟩
    rintro rfl
    exact hnot (by rwa [List.append_nil] at hrest)

end Course

end Source

/-! ## Sentences and errors -/

/-- **Files follow the grammar.** Every text has its words. It is read without a syntax error
exactly if these are a sentence and nothing but layout stands behind them. A syntax error comes
behind the beginning of a sentence, at the place where the text does not go on with it. -/
theorem Document.ofSource_follows_grammar (text path : String) (digest : Option String) :
    (∃ tokens stop left, Lexes [] {} text.toList tokens stop left) ∧
    ∀ tokens stop left, Lexes [] {} text.toList tokens stop left →
      (IsParsed (Document.ofSource text path digest) ↔
        (dropLayout left).2 = [] ∧ tokens.map Token.terminal ∈ Grammar.start) ∧
      ∀ at_, Document.ofSource text path digest = .error (.syntaxError at_) →
        IsBeginning Grammar.start (tokens.map Token.terminal) ∧
          BreaksOff tokens stop left at_ := by
  obtain ⟨stop, left, hlexes, hends⟩ := lexes_of_scans (scans_scanFile path text)
  refine ⟨⟨_, _, _, hlexes⟩, fun tokens stop' left' hlexes' => ?_⟩
  obtain ⟨rfl, rfl, rfl⟩ := hlexes.unique hlexes'
  have hbeginning := isBeginning_scanFile path text
  rw [List.nil_append] at hends
  rw [← exists_accepted_iff_of_ends hends]
  unfold Document.ofSource
  cases houtcome : (scanFile path text).2 with
  | accepted value =>
    have hparsed := isParsed_document value path digest
    exact ⟨⟨fun _ => ⟨value, rfl⟩, fun _ => hparsed⟩, fun at_ herror => absurd herror (hparsed at_)⟩
  | unexpected word at_ =>
    rw [houtcome] at hends
    refine ⟨⟨fun hparsed => absurd rfl (hparsed at_), by simp⟩, ?_⟩
    rintro _ ⟨⟩
    exact ⟨hbeginning, breaksOff_of_ends_unexpected hends⟩
  | unfinished at_ =>
    rw [houtcome] at hends
    refine ⟨⟨fun hparsed => absurd rfl (hparsed at_), by simp⟩, ?_⟩
    rintro _ ⟨⟩
    exact ⟨hbeginning, breaksOff_of_ends_unfinished hbeginning hends⟩

end FrancaLint
