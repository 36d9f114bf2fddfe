import FrancaLint.Proofs.Source.Sentences
import FrancaLint.Proofs.Source.Words

/-! # Writing sentences

Words **write** a value in a phrase if their tokens, wherever they are placed, make up a sentence
with such a value. How something is written follows the phrase by which it is read.

* `Phrase.Writes`, with one lemma for every kind of phrase: `Writes.pair`, `Writes.left`,
  `Writes.right`, `Writes.many`, `Writes.via`.
* `Writes.optional`, `Writes.flag`, `Writes.braced` and others for derived phrases. -/

namespace FrancaLint.Source

/-! ## Words with a meaning -/

/-- The word of a keyword or a mark. -/
def markWord (spelling : String) : Word :=
  (.fixed spelling, spelling.toList)

/-- The word of a name. -/
def nameWord (name : String) : Word :=
  (.name, name.toList)

/-- The word of a quoted text. -/
def quotedWord (text : String) : Word :=
  (.string, quoted text.toList)

/-- Words between braces. -/
def bracedWords (words : List Word) : List Word :=
  markWord "\x7b" :: (words ++ [markWord "\x7d"])

namespace Phrase

variable {α β ι κ : Type}

/-- The words are a sentence of the phrase wherever they are placed, with a value of some kind. -/
structure Writes (phrase : Phrase α) (words : List Word) (good : α → Prop) : Prop where
  /-- The words are words of the language. -/
  spelled : ∀ word ∈ words, Spelled word
  /-- Their tokens make up a sentence. -/
  yields : ∀ ts : List Token, ts.map Token.word = words → ∃ a, Yields phrase ts a ∧ good a

namespace Writes

variable {phrase : Phrase α} {words : List Word} {good : α → Prop}

/-- What is written has all properties that follow. -/
theorem mono {good' : α → Prop} (h : phrase.Writes words good) (hgood : ∀ a, good a → good' a) :
    phrase.Writes words good' where
  spelled := h.spelled
  yields ts hts := by
    obtain ⟨a, ha, hvalue⟩ := h.yields ts hts
    exact ⟨a, ha, hgood a hvalue⟩

/-- Nothing is written for a finished phrase. -/
theorem done {value : α} (h : good value) : (Phrase.done value).Writes [] good where
  spelled word hword := absurd hword List.not_mem_nil
  yields ts hts := by
    obtain rfl := List.map_eq_nil_iff.mp hts
    exact ⟨value, .done value, h⟩

/-- A word is written for its terminal. -/
theorem token (word : Word) {good : Token → Prop} (hspelled : Spelled word)
    (h : ∀ token : Token, token.word = word → good token) :
    (Phrase.token word.1).Writes [word] good where
  spelled other hother := by rwa [List.mem_singleton.mp hother]
  yields ts hts := by
    obtain ⟨token, rfl, hword⟩ := List.map_eq_singleton_iff.mp hts
    exact ⟨token, .token token (congrArg Prod.fst hword), h token hword⟩

/-- The parts of a pair are written one behind the other. -/
theorem pair {second : Phrase β} {words' : List Word} {good' : β → Prop}
    (h : phrase.Writes words good) (h' : second.Writes words' good') :
    (Phrase.pair phrase second).Writes (words ++ words') fun ab => good ab.1 ∧ good' ab.2 where
  spelled word hword := (List.mem_append.mp hword).elim (h.spelled word) (h'.spelled word)
  yields ts hts := by
    obtain ⟨us, vs, rfl, hus, hvs⟩ := List.map_eq_append_iff.mp hts
    obtain ⟨a, ha, hvalue⟩ := h.yields us hus
    obtain ⟨b, hb, hvalue'⟩ := h'.yields vs hvs
    exact ⟨(a, b), .pair ha hb, hvalue, hvalue'⟩

/-- The left side of a choice may be written. -/
theorem left (h : phrase.Writes words good) (right : Phrase α) :
    (either phrase right).Writes words good where
  spelled := h.spelled
  yields ts hts := by
    obtain ⟨a, ha, hvalue⟩ := h.yields ts hts
    exact ⟨a, .left ha, hvalue⟩

/-- The right side of a choice may be written. -/
theorem right (h : phrase.Writes words good) (left : Phrase α) :
    (either left phrase).Writes words good where
  spelled := h.spelled
  yields ts hts := by
    obtain ⟨a, ha, hvalue⟩ := h.yields ts hts
    exact ⟨a, .right ha, hvalue⟩

/-- A turned phrase is written like the phrase. -/
theorem via {f : α → β} {good : β → Prop} (h : phrase.Writes words fun a => good (f a)) :
    (Phrase.via f phrase).Writes words good where
  spelled := h.spelled
  yields ts hts := by
    obtain ⟨a, ha, hvalue⟩ := h.yields ts hts
    exact ⟨f a, .via ha, hvalue⟩

/-- The items of a repetition are written one behind the other. -/
theorem many {items : List ι} {itemWords : ι → List Word} {value : α → κ} {image : ι → κ}
    (h : ∀ item ∈ items, phrase.Writes (itemWords item) fun a => value a = image item) :
    (Phrase.many phrase).Writes (items.flatMap itemWords) fun as =>
      as.map value = items.map image where
  spelled word hword := by
    obtain ⟨item, hitem, hword⟩ := List.mem_flatMap.mp hword
    exact (h item hitem).spelled word hword
  yields ts hts := by
    induction items generalizing ts with
    | nil =>
      obtain rfl := List.map_eq_nil_iff.mp hts
      exact ⟨[], .none, rfl⟩
    | cons item items ih =>
      rw [List.forall_mem_cons] at h
      rw [List.flatMap_cons] at hts
      obtain ⟨us, vs, rfl, hus, hvs⟩ := List.map_eq_append_iff.mp hts
      obtain ⟨a, ha, hvalue⟩ := h.1.yields us hus
      obtain ⟨as, has, hvalues⟩ := ih h.2 vs hvs
      exact ⟨a :: as, .more ha has, by rw [List.map_cons, List.map_cons, hvalue, hvalues]⟩

/-- Nothing is written for a repetition without items. -/
theorem noItems (phrase : Phrase α) : (Phrase.many phrase).Writes [] fun _ => True where
  spelled word hword := absurd hword List.not_mem_nil
  yields ts hts := by
    obtain rfl := List.map_eq_nil_iff.mp hts
    exact ⟨[], .none, trivial⟩

/-! ## Derived phrases -/

/-- The first part, which does not count, is written in front. -/
theorem skipThen {first : Phrase β} {words' : List Word} {good' : β → Prop}
    (h' : first.Writes words' good') (h : phrase.Writes words good) :
    (Phrase.skipThen first phrase).Writes (words' ++ words) good :=
  ((h'.pair h).mono fun _ hvalues => hvalues.2).via

/-- The second part, which does not count, is written behind. -/
theorem thenSkip {second : Phrase β} {words' : List Word} {good' : β → Prop}
    (h : phrase.Writes words good) (h' : second.Writes words' good') :
    (Phrase.thenSkip phrase second).Writes (words ++ words') good :=
  ((h.pair h').mono fun _ hvalues => hvalues.1).via

/-- One of several phrases may be written. -/
theorem oneOf {phrases : List (Phrase α)} (h : phrase.Writes words good)
    (hmem : phrase ∈ phrases) : (Phrase.oneOf phrases).Writes words good := by
  induction phrases with
  | nil => exact absurd hmem List.not_mem_nil
  | cons first phrases ih =>
    rcases List.mem_cons.mp hmem with rfl | hmem
    · exact h.left _
    · exact (ih hmem).right first

/-- A keyword or a mark is written as it is spelled. -/
theorem mark {spelling : String} (h : spelling ∈ keywords ++ marks) :
    (Phrase.mark spelling).Writes [markWord spelling] fun _ => True :=
  token (markWord spelling) ⟨h, rfl⟩ fun _ _ => trivial

/-- A name is written as it is. -/
theorem name {identifier : String} (h : IsIdentifier identifier) :
    Phrase.name.Writes [nameWord identifier] fun token => token.text = identifier := by
  refine token (nameWord identifier) ?_ fun token hword => ?_
  · show IsIdentifier (String.ofList identifier.toList)
    rwa [String.ofList_toList]
  · rw [Token.text, show token.lexeme = identifier.toList from congrArg Prod.snd hword,
      String.ofList_toList]

/-- Nothing is written for a part that is left out. -/
theorem absent {good : Option α → Prop} (h : good none) :
    (Phrase.optional phrase).Writes [] good :=
  right (done h) _

/-- A part that is not left out is written. -/
theorem present {good : Option α → Prop} (h : phrase.Writes words fun a => good (some a)) :
    (Phrase.optional phrase).Writes words good :=
  h.via.left _

/-- A part that may be left out is written if it is there. -/
theorem optional {part : Option ι} {partWords : ι → List Word} {value : α → κ} {image : ι → κ}
    (h : ∀ x ∈ part, phrase.Writes (partWords x) fun a => value a = image x) :
    (Phrase.optional phrase).Writes (part.elim [] partWords) fun read =>
      read.map value = part.map image := by
  cases part with
  | none => exact absent rfl
  | some x =>
    refine ((h x rfl).mono fun a ha => ?_).present
    rw [Option.map_some, Option.map_some, ha]

/-- A flag is written if it is set. -/
theorem flag {spelling : String} (h : spelling ∈ keywords ++ marks) (set : Bool) :
    (Phrase.flag spelling).Writes (if set then [markWord spelling] else []) (· = set) := by
  cases set with
  | false =>
    have hfalse : (Phrase.done false).Writes [] (· = false) := done rfl
    exact hfalse.right _
  | true => exact ((mark h).mono fun _ _ => rfl).via.left _

/-- What stands between braces is written between them. -/
theorem braced (h : phrase.Writes words good) :
    (Phrase.braced phrase).Writes (bracedWords words) good :=
  (mark (by decide)).skipThen (h.thenSkip (mark (by decide)))

end Writes

end Phrase

end FrancaLint.Source
