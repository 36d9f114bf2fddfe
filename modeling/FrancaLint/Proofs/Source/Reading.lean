import FrancaLint.Proofs.Source.Languages
import FrancaLint.Proofs.Source.Matches
import FrancaLint.Source.Document

/-! # The course of a scan

A scan goes word by word until the text is at its end or no word can follow.

* `Ends`, how a scan ends in front of a text, and `Scans`, its whole course; `scans_scan` and
  `Scans.scan_eq`: that is what `scan` does.
* `Reads`, tokens with the text that they are read from, whatever they mean.
* `Scans.reads`: a scan ends behind its tokens, in front of what may follow these.
* `Scans.isBeginning`: its tokens are the beginning of a sentence.
* `yields_of_scanFile` and `Draft.exists_elements_of_document`: what an accepted file and its
  document consist of, with `Document.sourcePath_of_ofSource`. -/

namespace FrancaLint.Source

variable {α : Type}

/-- How a scan **ends** in front of a text that it takes no word from. -/
inductive Ends (phrase : Phrase α) (last pos : Position) (text : List Char) : Outcome α → Prop where
  /-- Only layout is left, and the phrase has the empty sentence. -/
  | accepted {value : α} (hbody : (dropLayout text).2 = [])
      (hvalue : phrase.emptyValue? = some value) : Ends phrase last pos text (.accepted value)
  /-- Only layout is left, and something is still to come. -/
  | unfinished (hbody : (dropLayout text).2 = []) (hvalue : phrase.emptyValue? = none) :
      Ends phrase last pos text (.unfinished last)
  /-- None of the terminals that are looked for has a match. -/
  | stuck (hbody : (dropLayout text).2 ≠ [])
      (hnone : longest? (allowedAfter phrase.starts) (dropLayout text).2 = none) :
      Ends phrase last pos text (.unexpected none (pos.advance (dropLayout text).1))
  /-- The longest match cannot follow. -/
  | refused {token : Token} {length : Nat}
      (hlongest : longest? (allowedAfter phrase.starts) (dropLayout text).2 =
        some (token.terminal, length))
      (hnever : (phrase.residual token).isNever = true) :
      Ends phrase last pos text
        (.unexpected (some token.terminal) (pos.advance (dropLayout text).1))

/-- A token is **taken** from the start of a text, behind layout. -/
structure Taken (pos : Position) (text : List Char) (token : Token) (rest : List Char) : Prop where
  /-- The text goes on with the characters of the token. -/
  body_eq : (dropLayout text).2 = token.lexeme ++ rest
  /-- The token starts behind the layout. -/
  start_eq : token.start = pos.advance (dropLayout text).1
  /-- The token ends behind its characters. -/
  stop_eq : token.stop = token.start.advance token.lexeme
  /-- The token has a character. -/
  lexeme_ne_nil : token.lexeme ≠ []
  /-- Its characters are the match of its terminal. -/
  wordLength_eq : token.terminal.wordLength (token.lexeme ++ rest) = token.lexeme.length

namespace Taken

variable {pos : Position} {text rest : List Char} {token : Token} (h : Taken pos text token rest)
include h

/-- The text is layout, the token and the rest. -/
theorem text_eq : (dropLayout text).1 ++ token.lexeme ++ rest = text := by
  rw [List.append_assoc, ← h.body_eq, append_dropLayout]

/-- The token ends behind the layout and its characters. -/
theorem stop_eq_advance : token.stop = pos.advance ((dropLayout text).1 ++ token.lexeme) := by
  rw [h.stop_eq, h.start_eq, Position.advance_append]

end Taken

/-- The **course** of a scan. -/
inductive Scans : Phrase α → Position → Position → List Char → List Token → Outcome α → Prop where
  /-- No more word is taken. -/
  | ends {phrase : Phrase α} {last pos : Position} {text : List Char} {outcome : Outcome α}
      (hends : Ends phrase last pos text outcome) : Scans phrase last pos text [] outcome
  /-- The longest match is taken. -/
  | word {phrase : Phrase α} {last pos : Position} {text rest : List Char} {token : Token}
      {tokens : List Token} {outcome : Outcome α} (htaken : Taken pos text token rest)
      (hlongest : longest? (allowedAfter phrase.starts) (token.lexeme ++ rest) =
        some (token.terminal, token.lexeme.length))
      (hnext : (phrase.residual token).isNever = false)
      (hrest : Scans (phrase.residual token) token.start token.stop rest tokens outcome) :
      Scans phrase last pos text (token :: tokens) outcome

/-- A scan takes its course. -/
theorem scans_scan (phrase : Phrase α) (last pos : Position) (text : List Char) :
    Scans phrase last pos text (scan phrase last pos text).1 (scan phrase last pos text).2 := by
  fun_induction scan phrase last pos text with
  | case1 phrase last pos text body hbody value hvalue =>
    exact .ends (.accepted (List.isEmpty_iff.mp hbody) hvalue)
  | case2 phrase last pos text body hbody hvalue =>
    exact .ends (.unfinished (List.isEmpty_iff.mp hbody) hvalue)
  | case3 phrase last pos text start body hbody hnone =>
    rw [List.isEmpty_iff] at hbody
    exact .ends (.stuck hbody hnone)
  | case4 phrase last pos text start body hbody terminal length hlongest lexeme token next hnever =>
    have hrefused : Ends phrase last pos text (.unexpected (some token.terminal) start) :=
      .refused hlongest hnever
    exact .ends hrefused
  | case5 phrase last pos text start body hbody terminal length hlongest lexeme token next hnever
      tokens outcome hscan ih =>
    obtain ⟨-, hlength, hpos, -⟩ := longest?_spec hlongest
    have hle := wordLength_le terminal body
    have htake : lexeme.length = length := by
      rw [List.length_take]
      omega
    have hbody' : token.lexeme ++ body.drop length = body := List.take_append_drop length body
    rw [hscan] at ih
    refine .word ⟨hbody'.symm, rfl, rfl, ?_, ?_⟩ ?_ (Bool.eq_false_iff.mpr hnever) ih
    · exact List.ne_nil_of_length_pos (htake ▸ hpos)
    · rw [hbody', htake]
      exact hlength
    · rw [hbody', htake]
      exact hlongest

/-- A course to an accepted end is that of the scan. -/
theorem Scans.scan_eq {phrase : Phrase α} {last pos : Position} {text : List Char}
    {tokens : List Token} {value : α} (h : Scans phrase last pos text tokens (.accepted value)) :
    scan phrase last pos text = (tokens, .accepted value) := by
  generalize houtcome : Outcome.accepted value = outcome at h
  induction h with
  | ends hends =>
    subst houtcome
    cases hends with
    | accepted hbody hvalue =>
      unfold scan
      simp [hbody, hvalue]
  | @word phrase last pos text rest token tokens outcome htaken hlongest hnext _ ih =>
    have hbody : (dropLayout text).2 ≠ [] := by
      rw [htaken.body_eq]
      exact List.append_ne_nil_of_left_ne_nil htaken.lexeme_ne_nil rest
    rw [← htaken.body_eq] at hlongest
    have htake : (dropLayout text).2.take token.lexeme.length = token.lexeme := by
      rw [htaken.body_eq, List.take_left]
    have hdrop : (dropLayout text).2.drop token.lexeme.length = rest := by
      rw [htaken.body_eq, List.drop_left]
    unfold scan
    simp only [List.isEmpty_iff, if_neg hbody]
    split
    · next hnone =>
      rw [hlongest] at hnone
      cases hnone
    · next found =>
      rw [hlongest] at found
      cases found
      have htoken : (⟨token.terminal, token.lexeme, pos.advance (dropLayout text).1,
          (pos.advance (dropLayout text).1).advance token.lexeme⟩ : Token) = token := by
        rw [← htaken.start_eq, ← htaken.stop_eq]
      rw [htake, hdrop, htoken, hnext, ← htaken.start_eq, ← htaken.stop_eq, ih houtcome]
      rfl

/-! ## Tokens and their text -/

/-- Tokens are **read** from a text, one after the other, up to a position and what is left. -/
inductive Reads : Position → List Char → List Token → Position → List Char → Prop where
  /-- No token. -/
  | stop (pos : Position) (text : List Char) : Reads pos text [] pos text
  /-- One more token in front. -/
  | word {pos stop : Position} {text rest left : List Char} {token : Token} {tokens : List Token}
      (htaken : Taken pos text token rest) (hrest : Reads token.stop rest tokens stop left) :
      Reads pos text (token :: tokens) stop left

/-- The position of the last token, or a given one if there is none. -/
def lastStart (last : Position) (tokens : List Token) : Position :=
  (tokens.getLast?.map Token.start).getD last

/-- With a token in front, the last token is the last one behind it, or that token. -/
theorem lastStart_cons (last : Position) (token : Token) (tokens : List Token) :
    lastStart last (token :: tokens) = lastStart token.start tokens := by
  unfold lastStart
  rw [List.getLast?_cons]
  cases tokens.getLast? <;> rfl

section Course

variable {phrase : Phrase α} {last pos : Position} {text : List Char} {tokens : List Token}
  {outcome : Outcome α}

/-- A scan reads its tokens and ends behind them, in front of what may follow them. -/
theorem Scans.reads {ts : List Token} (h : Scans (phrase.after ts) last pos text tokens outcome) :
    ∃ stop left, Reads pos text tokens stop left ∧
      Ends (phrase.after (ts ++ tokens)) (lastStart last tokens) stop left outcome := by
  generalize hphrase : phrase.after ts = current at h
  induction h generalizing ts with
  | ends hends =>
    refine ⟨_, _, .stop _ _, ?_⟩
    rw [List.append_nil, hphrase]
    exact hends
  | @word current last pos text rest token tokens outcome htaken _ _ _ ih =>
    subst hphrase
    obtain ⟨stop, left, hreads, hends⟩ := ih (Phrase.after_concat phrase ts token)
    rw [List.append_assoc, List.singleton_append, ← lastStart_cons last] at hends
    exact ⟨stop, left, .word htaken hreads, hends⟩

/-- A token of a scan ends at some place of the text. -/
theorem Scans.exists_stop_of_mem (h : Scans phrase last pos text tokens outcome) {token : Token}
    (hmem : token ∈ tokens) :
    ∃ before back, text = before ++ back ∧ token.stop = pos.advance before := by
  induction h with
  | ends => cases hmem
  | @word _ last pos text rest first tokens _ htaken _ _ _ ih =>
    rcases List.mem_cons.mp hmem with rfl | hmem
    · exact ⟨_, rest, htaken.text_eq.symm, htaken.stop_eq_advance⟩
    · obtain ⟨before, back, rfl, htoken⟩ := ih hmem
      refine ⟨(dropLayout text).1 ++ first.lexeme ++ before, back, ?_, ?_⟩
      · rw [List.append_assoc, htaken.text_eq]
      · rw [htoken, htaken.stop_eq_advance, ← Position.advance_append]

/-- The tokens of a scan are the beginning of a sentence. -/
theorem Scans.isBeginning (hproductive : phrase.isProductive = true) {ts : List Token}
    (hbeginning : IsBeginning phrase.language (ts.map Token.terminal))
    (h : Scans (phrase.after ts) last pos text tokens outcome) :
    IsBeginning phrase.language ((ts ++ tokens).map Token.terminal) := by
  generalize hphrase : phrase.after ts = current at h
  induction h generalizing ts with
  | ends _ => rwa [List.append_nil]
  | @word current last pos text rest token tokens outcome _ _ hnext _ ih =>
    subst hphrase
    have hgoes : IsBeginning phrase.language ((ts ++ [token]).map Token.terminal) := by
      by_contra hnot
      rw [List.map_append, List.map_singleton,
        ← Phrase.isNever_residual_after_iff hproductive, hnext] at hnot
      cases hnot
    rw [← List.singleton_append, ← List.append_assoc]
    exact ih hgoes (Phrase.after_concat _ _ _)

end Course

/-- The scan of a file takes its course. -/
theorem scans_scanFile (path text : String) :
    Scans ((draft path).after []) {} {} text.toList (scanFile path text).1
      (scanFile path text).2 :=
  scans_scan (draft path) {} {} text.toList

/-- A file that is accepted is a sentence with its value. -/
theorem yields_of_scanFile {path text : String} {tokens : List Token} {a : Draft}
    (h : scanFile path text = (tokens, .accepted a)) : Phrase.Yields (draft path) tokens a := by
  obtain ⟨stop, left, -, hends⟩ := (scans_scanFile path text).reads
  rw [List.nil_append, h] at hends
  cases hends with
  | accepted _ hvalue =>
    have hyields := Phrase.yields_of_after (Phrase.yields_of_emptyValue? hvalue)
    rwa [List.append_nil] at hyields

/-- The document of a draft has the elements that its definitions are turned into, with at most one
anonymous type collection. -/
theorem Draft.exists_elements_of_document {draft : Draft} {path : String} {digest : Option String}
    {document : Document} (h : draft.document path digest = .ok document) :
    ∃ elements, draft.definitions.mapM Definition.element = .ok elements ∧
      ((collectionsOf elements).filter (·.name.isEmpty)).length ≤ 1 ∧
      document = {
        package := draft.package, sourcePath := path, imports := draft.imports,
        typeCollections := collectionsOf elements, interfaces := interfacesOf elements,
        digest := digest, span := draft.span } := by
  cases helements : draft.definitions.mapM Definition.element with
  | error fault =>
    simp only [Draft.document, helements, bind, Except.bind] at h
    cases h
  | ok elements =>
    simp only [Draft.document, helements, bind, Except.bind] at h
    split at h
    · cases h
    · next hmany =>
      cases h
      refine ⟨elements, rfl, ?_, rfl⟩
      cases hfilter : (collectionsOf elements).filter (·.name.isEmpty) with
      | nil => simp
      | cons first others =>
        cases others with
        | nil => simp
        | cons second others => exact absurd hfilter (hmany first second others)

/-- A text that stands for a document is accepted, with a draft of this document. -/
theorem exists_draft_of_ofSource {text path : String} {digest : Option String}
    {document : Document} (h : Document.ofSource text path digest = .ok document) :
    ∃ tokens draft, scanFile path text = (tokens, .accepted draft) ∧
      draft.document path digest = .ok document := by
  unfold Document.ofSource at h
  split at h
  · rename_i draft hscan
    exact ⟨_, draft, Prod.ext rfl hscan, h⟩
  · cases h
  · cases h

end FrancaLint.Source

namespace FrancaLint

/-- A document that is read from a text has the identifier it was read for. -/
theorem Document.sourcePath_of_ofSource {text path : String} {digest : Option String}
    {document : Document} (h : Document.ofSource text path digest = .ok document) :
    document.sourcePath = path := by
  obtain ⟨tokens, draft, -, hdraft⟩ := Source.exists_draft_of_ofSource h
  obtain ⟨elements, -, -, rfl⟩ := draft.exists_elements_of_document hdraft
  rfl

end FrancaLint
