import FrancaLint.Proofs.Source.Determinism
import FrancaLint.Proofs.Source.Words

/-! # Scanning written words

Words that are written with blanks between them are read again as they are, if they make up a
sentence.

* `written`, the text of words, and `placed`, their tokens with the positions they have in it.
* `Readable`, a phrase whose sentences can be read word by word, with
  `Readable.mem_allowedAfter`: the next word of a sentence is always looked for.
* `Readable.scan_written`: the text of a sentence is accepted with the value of the sentence. -/

namespace FrancaLint.Source

/-! ## Texts of words -/

/-- The words with blanks between them. -/
def written : List Word → List Char
  | [] => []
  | [word] => word.2
  | word :: next :: rest => word.2 ++ ' ' :: written (next :: rest)

/-- The blank between a word and further words. -/
def gap : List Word → List Char
  | [] => []
  | _ :: _ => [' ']

/-- Words are written behind the blank after the first one. -/
theorem written_cons (word : Word) (rest : List Word) :
    written (word :: rest) = word.2 ++ (gap rest ++ written rest) := by
  cases rest with
  | nil => rw [written, gap, written, List.append_nil, List.append_nil]
  | cons next rest => rw [written, gap, List.singleton_append]

/-- What is written behind a word does not belong to it. -/
theorem endsWord_gap_append (rest : List Word) : EndsWord (gap rest ++ written rest) := by
  cases rest with
  | nil =>
    intro c more heq
    cases heq
  | cons next rest =>
    intro c more heq
    exact (List.cons.inj heq).1.symm

/-- The tokens of words that are written from a position on. -/
def placed (pos : Position) : List Word → List Token
  | [] => []
  | word :: rest =>
      ⟨word.1, word.2, pos, pos.advance word.2⟩ ::
        placed ((pos.advance word.2).advance (gap rest)) rest

/-- Placing words keeps the words. -/
@[simp] theorem map_word_placed (pos : Position) (words : List Word) :
    (placed pos words).map Token.word = words := by
  induction words generalizing pos with
  | nil => rfl
  | cons word rest ih =>
    rw [placed, List.map_cons, ih]
    rfl

/-! ## One step of a scan -/

section Step

variable {α : Type} {phrase : Phrase α} {last pos : Position}

/-- At the end of the text the value of the empty sentence is accepted. -/
theorem scan_nil {a : α} (h : phrase.emptyValue? = some a) :
    (scan phrase last pos []).2 = .accepted a := by
  have hlayout : dropLayout [] = ([], []) := by
    rw [dropLayout]
    rfl
  rw [scan, hlayout, h]
  rfl

/-- A word at the start of the text, behind layout, is taken, and reading goes on behind it. -/
theorem scan_of_longest? {text layout body : List Char} {terminal : Terminal} {length : Nat}
    {token : Token} (hlayout : dropLayout text = (layout, body)) (hbody : body ≠ [])
    (hlongest : longest? (allowedAfter phrase.starts) body = some (terminal, length))
    (htoken : token = ⟨terminal, body.take length, pos.advance layout,
      (pos.advance layout).advance (body.take length)⟩)
    (hnext : (phrase.residual token).isNever = false) :
    (scan phrase last pos text).2 =
      (scan (phrase.residual token) token.start token.stop (body.drop length)).2 := by
  subst htoken
  have hbehind : longest? (allowedAfter phrase.starts) (dropLayout text).2 =
      some (terminal, length) := by
    rw [hlayout]
    exact hlongest
  rw [scan]
  simp only [hlayout]
  rw [if_neg (by simpa using hbody)]
  split
  · next hnone =>
    rw [hbehind] at hnone
    cases hnone
  · next found =>
    rw [hbehind] at found
    cases found
    rw [if_neg (by rw [hnext]; exact Bool.false_ne_true)]

end Step

/-! ## Phrases that can be read word by word -/

/-- A phrase that can be **read** word by word: the next token decides how a sentence goes on, and
where a dot may stand, nothing else may stand than what is looked for behind a dotted name. -/
structure Readable {α : Type} (phrase : Phrase α) : Prop where
  /-- The next token decides. -/
  isDeterministic : phrase.isDeterministic = true
  /-- The phrase can be continued behind the first part of every pair. -/
  isProductive : phrase.isProductive = true
  /-- The terminals are those of the language. -/
  terminals_subset : phrase.terminals ⊆ vocabulary
  /-- The rivals of a dot are looked for behind a dotted name. -/
  rivals_subset : phrase.rivals (.fixed ".") ⊆ behindDottedName

namespace Readable

variable {α : Type} {phrase : Phrase α} (h : Readable phrase)
include h

/-- Only terminals of the language are looked for. -/
theorem allowedAfter_subset (ts : List Token) :
    allowedAfter (phrase.after ts).starts ⊆ vocabulary := by
  unfold allowedAfter
  split
  · decide
  · exact List.Subset.trans (Phrase.starts_subset_terminals _)
      (List.Subset.trans (phrase.terminals_after_subset ts) h.terminals_subset)

/-- The next token of a sentence is looked for. -/
theorem mem_allowedAfter {ts us : List Token} {next : Token} {a : α}
    (hyields : Phrase.Yields phrase (ts ++ next :: us) a) :
    next.terminal ∈ allowedAfter (phrase.after ts).starts := by
  obtain ⟨b, hb⟩ := Phrase.exists_yields_after hyields
  have hstarts := Phrase.mem_starts_of_yields hb
  unfold allowedAfter
  split
  · next hdot =>
    -- a dot may stand here as well, so that the next token is a dot or a rival of a dot
    rw [List.contains_iff_mem] at hdot
    obtain ⟨dot, vs, c, hterminal, hc⟩ := Phrase.exists_yields_of_mem_starts
      (Phrase.isProductive_after h.isProductive ts) hdot
    rcases Phrase.eq_or_mem_rivals h.isDeterministic (Phrase.yields_of_after hc) hyields with
      hsame | hrival
    · rw [hsame, hterminal]
      exact List.mem_cons_self
    · rw [hterminal] at hrival
      exact List.mem_cons_of_mem _ (h.rivals_subset hrival)
  · exact hstarts

/-- The rest of a sentence, which is written behind a blank or not, is accepted. -/
theorem scan_after (words : List Word) (hspelled : ∀ word ∈ words, Spelled word)
    (ts : List Token) (last pos : Position) (space : List Char)
    (hspace : space = [] ∨ space = gap words) {a : α}
    (hyields : Phrase.Yields phrase (ts ++ placed (pos.advance space) words) a) :
    (scan (phrase.after ts) last pos (space ++ written words)).2 = .accepted a := by
  -- on the words that are left; `ts` are the tokens of those that have been read
  induction words generalizing ts last pos space with
  | nil =>
    obtain rfl : space = [] := hspace.elim id id
    obtain ⟨b, hb⟩ := Phrase.exists_yields_after hyields
    obtain ⟨c, hc⟩ := Option.isSome_iff_exists.mp (Phrase.isSome_emptyValue?_of_yields hb)
    have hvalue := Phrase.yields_of_after (Phrase.yields_of_emptyValue? hc)
    rw [Phrase.eq_of_yields h.isDeterministic hyields hvalue]
    exact scan_nil hc
  | cons word rest ih =>
    rw [List.forall_mem_cons] at hspelled
    set token : Token := ⟨word.1, word.2, pos.advance space, (pos.advance space).advance word.2⟩
      with htoken
    rw [placed, ← htoken] at hyields
    have hlayout : dropLayout (space ++ written (word :: rest)) =
        (space, written (word :: rest)) := by
      rw [written_cons]
      rcases hspace with rfl | rfl
      · exact dropLayout_append_of_spelled hspelled.1 _
      · exact dropLayout_blank_append_of_spelled hspelled.1 _
    have hlongest : longest? (allowedAfter (phrase.after ts).starts) (written (word :: rest)) =
        some (word.1, word.2.length) := by
      rw [written_cons]
      exact longest?_append_of_spelled (endsWord_gap_append rest) hspelled.1
        (h.mem_allowedAfter hyields) (h.allowedAfter_subset ts)
    have hyields' : Phrase.Yields phrase
        ((ts ++ [token]) ++ placed (token.stop.advance (gap rest)) rest) a := by
      rwa [List.append_assoc]
    -- the rest of the sentence shows that the token has not been refused
    have hnext : ((phrase.after ts).residual token).isNever = false := by
      rw [← Phrase.after_concat]
      obtain ⟨b, hb⟩ := Phrase.exists_yields_after hyields'
      exact Phrase.isNever_eq_false_of_yields hb
    obtain ⟨c, cs, hcons, -⟩ := exists_cons_of_spelled hspelled.1
    have hbody : written (word :: rest) ≠ [] := by
      rw [written_cons, hcons]
      exact List.cons_ne_nil _ _
    have htake : (written (word :: rest)).take word.2.length = word.2 := by
      rw [written_cons, List.take_left]
    have hdrop : (written (word :: rest)).drop word.2.length = gap rest ++ written rest := by
      rw [written_cons, List.drop_left]
    rw [scan_of_longest? hlayout hbody hlongest (by rw [htake]) hnext, hdrop,
      ← Phrase.after_concat]
    exact ih hspelled.2 (ts ++ [token]) token.start token.stop (gap rest) (Or.inr rfl) hyields'

/-- A sentence that is written with blanks between its words is accepted with its value. -/
theorem scan_written {words : List Word} (hspelled : ∀ word ∈ words, Spelled word) {a : α}
    (last pos : Position) (hyields : Phrase.Yields phrase (placed pos words) a) :
    (scan phrase last pos (written words)).2 = .accepted a :=
  h.scan_after words hspelled [] last pos [] (Or.inl rfl) hyields

end Readable

end FrancaLint.Source
