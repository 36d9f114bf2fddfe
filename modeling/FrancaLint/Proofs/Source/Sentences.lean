import FrancaLint.Source.Phrase
import Mathlib.Data.List.Forall2

/-! # Sentences of phrases

Reading by residuals finds the sentences of a phrase: a residual has the sentences that may follow a
token, with values that the whole phrase gives as well.

* `Phrase.yields_pair_iff` and its siblings, the sentences of every kind of phrase.
* `Phrase.yields_of_residual` and `Phrase.exists_yields_residual`: a residual has no other sentences
  than the rests of those of its phrase, and all of them.
* `Phrase.mem_starts_of_yields` and `Phrase.exists_yields_of_mem_starts`: the terminals with which a
  sentence starts. -/

namespace FrancaLint.Source.Phrase

variable {α β : Type}

/-! ## Sentences by kind of phrase -/

/-- The sentences of a phrase by recursion on the phrase. -/
def Means : {α : Type} → Phrase α → List Token → α → Prop
  | _, never, _, _ => False
  | _, done value, ts, a => ts = [] ∧ a = value
  | _, token terminal, ts, a => ts = [a] ∧ a.terminal = terminal
  | _, pair first second, ts, ab =>
      ∃ us vs, ts = us ++ vs ∧ Means first us ab.1 ∧ Means second vs ab.2
  | _, either left right, ts, a => Means left ts a ∨ Means right ts a
  | _, many item, ts, as => ∃ parts, ts = List.flatten parts ∧ List.Forall₂ (Means item) parts as
  | _, via f phrase, ts, b => ∃ a, Means phrase ts a ∧ f a = b

/-- Sentences by recursion are the sentences. -/
theorem yields_iff_means {phrase : Phrase α} {ts : List Token} {a : α} :
    Yields phrase ts a ↔ Means phrase ts a := by
  constructor
  · intro h
    induction h with
    | done value => exact ⟨rfl, rfl⟩
    | token token same => exact ⟨rfl, same⟩
    | pair _ _ one two => exact ⟨_, _, rfl, one, two⟩
    | left _ one => exact Or.inl one
    | right _ one => exact Or.inr one
    | none => exact ⟨[], rfl, .nil⟩
    | more _ _ one rest =>
      obtain ⟨parts, rfl, hparts⟩ := rest
      exact ⟨_ :: parts, rfl, .cons one hparts⟩
    | via _ one => exact ⟨_, one, rfl⟩
  · intro h
    induction phrase generalizing ts with
    | never => exact h.elim
    | done value =>
      obtain ⟨rfl, rfl⟩ := h
      exact .done _
    | token terminal =>
      obtain ⟨rfl, same⟩ := h
      exact .token a same
    | pair first second ihFirst ihSecond =>
      obtain ⟨us, vs, rfl, hfirst, hsecond⟩ := h
      exact .pair (ihFirst hfirst) (ihSecond hsecond)
    | either left right ihLeft ihRight =>
      rcases h with h | h
      · exact .left (ihLeft h)
      · exact .right (ihRight h)
    | many item ih =>
      obtain ⟨parts, rfl, hparts⟩ := h
      induction hparts with
      | nil => exact .none
      | cons one _ rest => exact .more (ih one) rest
    | via f phrase ih =>
      obtain ⟨b, hb, rfl⟩ := h
      exact .via (ih hb)

/-- A phrase without sentences has none. -/
@[simp] theorem not_yields_never {ts : List Token} {a : α} : ¬ Yields (never : Phrase α) ts a := by
  rw [yields_iff_means]
  exact id

/-- The only sentence of a finished phrase is empty. -/
@[simp] theorem yields_done_iff {value a : α} {ts : List Token} :
    Yields (done value) ts a ↔ ts = [] ∧ a = value := by
  rw [yields_iff_means, Means]

/-- The sentences of a terminal are its tokens. -/
@[simp] theorem yields_token_iff {terminal : Terminal} {ts : List Token} {a : Token} :
    Yields (token terminal) ts a ↔ ts = [a] ∧ a.terminal = terminal := by
  rw [yields_iff_means, Means]

/-- The sentences of a pair are those of its parts, one behind the other. -/
theorem yields_pair_iff {first : Phrase α} {second : Phrase β} {ts : List Token} {ab : α × β} :
    Yields (pair first second) ts ab ↔
      ∃ us vs, ts = us ++ vs ∧ Yields first us ab.1 ∧ Yields second vs ab.2 := by
  simp only [yields_iff_means, Means]

/-- The sentences of a choice are those of its sides. -/
@[simp] theorem yields_either_iff {left right : Phrase α} {ts : List Token} {a : α} :
    Yields (either left right) ts a ↔ Yields left ts a ∨ Yields right ts a := by
  simp only [yields_iff_means, Means]

/-- The sentences of a turned phrase are those of the phrase. -/
theorem yields_via_iff {f : α → β} {phrase : Phrase α} {ts : List Token} {b : β} :
    Yields (via f phrase) ts b ↔ ∃ a, Yields phrase ts a ∧ f a = b := by
  simp only [yields_iff_means, Means]

/-- Without an item, the sentence of a repetition is empty. -/
@[simp] theorem yields_many_nil_iff {item : Phrase α} {ts : List Token} :
    Yields (many item) ts [] ↔ ts = [] := by
  simp only [yields_iff_means, Means]
  constructor
  · rintro ⟨parts, rfl, hparts⟩
    rw [List.forall₂_nil_right_iff.mp hparts, List.flatten_nil]
  · rintro rfl
    exact ⟨[], rfl, .nil⟩

/-- With an item, the sentence of a repetition starts with that of the item. -/
theorem yields_many_cons_iff {item : Phrase α} {ts : List Token} {a : α} {as : List α} :
    Yields (many item) ts (a :: as) ↔
      ∃ us vs, ts = us ++ vs ∧ Yields item us a ∧ Yields (many item) vs as := by
  constructor
  · intro h
    rw [yields_iff_means] at h
    obtain ⟨parts, rfl, hparts⟩ := h
    obtain ⟨us, rest, hone, hrest, rfl⟩ := List.forall₂_cons_right_iff.mp hparts
    exact ⟨us, rest.flatten, rfl, yields_iff_means.mpr hone,
      yields_iff_means.mpr ⟨rest, rfl, hrest⟩⟩
  · rintro ⟨us, vs, rfl, hone, hrest⟩
    exact .more hone hrest

/-- The first token of a repetition is the first one of an item. -/
theorem exists_item_of_yields_many {item : Phrase α} {next : Token} {ts : List Token}
    {as : List α} (h : Yields (many item) (next :: ts) as) :
    ∃ us vs a bs, ts = us ++ vs ∧ Yields item (next :: us) a ∧ Yields (many item) vs bs := by
  induction as with
  | nil => exact absurd (yields_many_nil_iff.mp h) (List.cons_ne_nil _ _)
  | cons a as ih =>
    obtain ⟨us, vs, hts, hone, hrest⟩ := yields_many_cons_iff.mp h
    -- empty items in front do not count
    rcases List.cons_eq_append_iff.mp hts with ⟨rfl, rfl⟩ | ⟨us, rfl, rfl⟩
    · exact ih hrest
    · exact ⟨us, vs, a, as, rfl, hone, hrest⟩

/-! ## Empty sentences -/

/-- The value of the empty sentence is one. -/
theorem yields_of_emptyValue? {phrase : Phrase α} {a : α} (h : phrase.emptyValue? = some a) :
    Yields phrase [] a := by
  induction phrase with
  | never => cases h
  | done value =>
    obtain rfl := Option.some.inj h
    exact .done _
  | token terminal => cases h
  | pair first second ihFirst ihSecond =>
    simp only [emptyValue?] at h
    split at h
    · next b c hb hc =>
      obtain rfl := Option.some.inj h
      exact .pair (ihFirst hb) (ihSecond hc)
    · cases h
  | either left right ihLeft ihRight =>
    simp only [emptyValue?] at h
    split at h
    · next b hb =>
      obtain rfl := Option.some.inj h
      exact .left (ihLeft hb)
    · exact .right (ihRight h)
  | many item _ =>
    obtain rfl := Option.some.inj h
    exact .none
  | via f phrase ih =>
    obtain ⟨b, hb, rfl⟩ := Option.map_eq_some_iff.mp h
    exact .via (ih hb)

/-- A phrase with an empty sentence has a value for it. -/
theorem isSome_emptyValue?_of_yields {phrase : Phrase α} {a : α} (h : Yields phrase [] a) :
    phrase.emptyValue?.isSome = true := by
  induction phrase with
  | never => exact absurd h not_yields_never
  | done value => rfl
  | token terminal => exact absurd (yields_token_iff.mp h).1 (List.cons_ne_nil _ _).symm
  | pair first second ihFirst ihSecond =>
    obtain ⟨us, vs, hnil, hfirst, hsecond⟩ := yields_pair_iff.mp h
    obtain ⟨rfl, rfl⟩ := List.append_eq_nil_iff.mp hnil.symm
    obtain ⟨b, hb⟩ := Option.isSome_iff_exists.mp (ihFirst hfirst)
    obtain ⟨c, hc⟩ := Option.isSome_iff_exists.mp (ihSecond hsecond)
    simp [emptyValue?, hb, hc]
  | either left right ihLeft ihRight =>
    simp only [emptyValue?]
    split
    · rfl
    · next hnone =>
      rcases yields_either_iff.mp h with h | h
      · rw [Option.isSome_iff_ne_none] at ihLeft
        exact absurd hnone (ihLeft h)
      · exact ihRight h
  | many item _ => rfl
  | via f phrase ih =>
    obtain ⟨b, hb, -⟩ := yields_via_iff.mp h
    rw [emptyValue?, Option.isSome_map]
    exact ih hb

/-- A phrase has a value for the empty sentence exactly if it has the empty sentence. -/
theorem isSome_emptyValue?_iff {phrase : Phrase α} :
    phrase.emptyValue?.isSome = true ↔ ∃ a, Yields phrase [] a := by
  constructor
  · intro h
    obtain ⟨a, ha⟩ := Option.isSome_iff_exists.mp h
    exact ⟨a, yields_of_emptyValue? ha⟩
  · rintro ⟨a, ha⟩
    exact isSome_emptyValue?_of_yields ha

/-! ## Residuals -/

/-- The sentences of a turned phrase, whatever its form. -/
@[simp] theorem yields_viaOrNever_iff {f : α → β} {phrase : Phrase α} {ts : List Token} {b : β} :
    Yields (viaOrNever f phrase) ts b ↔ ∃ a, Yields phrase ts a ∧ f a = b := by
  cases phrase with
  | never => simp [viaOrNever]
  | done value => simp [viaOrNever, eq_comm]
  | via g phrase => simp [viaOrNever, yields_via_iff]
  | token terminal => exact yields_via_iff
  | pair first second => exact yields_via_iff
  | either left right => exact yields_via_iff
  | many item => exact yields_via_iff

/-- The sentences of a pair, whatever its form. -/
@[simp] theorem yields_pairOrNever_iff {first : Phrase α} {second : Phrase β} {ts : List Token}
    {ab : α × β} : Yields (pairOrNever first second) ts ab ↔
      ∃ us vs, ts = us ++ vs ∧ Yields first us ab.1 ∧ Yields second vs ab.2 := by
  cases first with
  | never => simp [pairOrNever]
  | done value =>
    obtain ⟨a, b⟩ := ab
    simp [pairOrNever, and_comm, eq_comm]
  | via g phrase => exact yields_pair_iff
  | token terminal => exact yields_pair_iff
  | pair first second => exact yields_pair_iff
  | either left right => exact yields_pair_iff
  | many item => exact yields_pair_iff

/-- The sentences of a choice, whatever its form. -/
@[simp] theorem yields_eitherOrNever_iff {left right : Phrase α} {ts : List Token} {a : α} :
    Yields (eitherOrNever left right) ts a ↔ Yields left ts a ∨ Yields right ts a := by
  unfold eitherOrNever
  split <;> simp

/-- Behind a token, what is a sentence of the residual makes a sentence of the phrase. -/
theorem yields_of_residual {next : Token} {phrase : Phrase α} {ts : List Token} {a : α}
    (h : Yields (phrase.residual next) ts a) : Yields phrase (next :: ts) a := by
  induction phrase generalizing ts with
  | never => exact absurd h not_yields_never
  | done value => exact absurd h not_yields_never
  | token terminal =>
    simp only [residual] at h
    split at h
    · next same =>
      obtain ⟨rfl, rfl⟩ := yields_done_iff.mp h
      exact .token a same
    · exact absurd h not_yields_never
  | pair first second ihFirst ihSecond =>
    simp only [residual, yields_eitherOrNever_iff, yields_pairOrNever_iff] at h
    rcases h with ⟨us, vs, rfl, hfirst, hsecond⟩ | h
    · exact .pair (ihFirst hfirst) hsecond
    · -- the token belongs to the second part, so the first one is empty
      split at h
      · next b hb =>
        obtain ⟨c, hc, rfl⟩ := yields_viaOrNever_iff.mp h
        exact .pair (yields_of_emptyValue? hb) (ihSecond hc)
      · exact absurd h not_yields_never
  | either left right ihLeft ihRight =>
    simp only [residual, yields_eitherOrNever_iff] at h
    rcases h with h | h
    · exact .left (ihLeft h)
    · exact .right (ihRight h)
  | many item ih =>
    simp only [residual, yields_viaOrNever_iff, yields_pairOrNever_iff] at h
    obtain ⟨⟨b, bs⟩, ⟨us, vs, rfl, hone, hrest⟩, rfl⟩ := h
    exact .more (ih hone) hrest
  | via f phrase ih =>
    obtain ⟨b, hb, rfl⟩ := yields_viaOrNever_iff.mp h
    exact .via (ih hb)

/-- What follows a token in a sentence of the phrase is a sentence of the residual, possibly with
another value. -/
theorem exists_yields_residual {next : Token} {phrase : Phrase α} {ts : List Token} {a : α}
    (h : Yields phrase (next :: ts) a) : ∃ b, Yields (phrase.residual next) ts b := by
  induction phrase generalizing ts with
  | never => exact absurd h not_yields_never
  | done value => exact absurd (yields_done_iff.mp h).1 (List.cons_ne_nil _ _)
  | token terminal =>
    obtain ⟨hts, same⟩ := yields_token_iff.mp h
    obtain ⟨rfl, rfl⟩ := List.cons.inj hts
    exact ⟨next, by rw [residual, if_pos same]; exact .done _⟩
  | pair first second ihFirst ihSecond =>
    simp only [residual, yields_eitherOrNever_iff, yields_pairOrNever_iff]
    obtain ⟨us, vs, hts, hfirst, hsecond⟩ := yields_pair_iff.mp h
    -- the token stands in the second part exactly if the first one is empty
    rcases List.cons_eq_append_iff.mp hts with ⟨rfl, rfl⟩ | ⟨us, rfl, rfl⟩
    · obtain ⟨b, hb⟩ := Option.isSome_iff_exists.mp (isSome_emptyValue?_of_yields hfirst)
      obtain ⟨c, hc⟩ := ihSecond hsecond
      exact ⟨(b, c), Or.inr (by rw [hb]; exact yields_viaOrNever_iff.mpr ⟨c, hc, rfl⟩)⟩
    · obtain ⟨b, hb⟩ := ihFirst hfirst
      exact ⟨(b, _), Or.inl ⟨us, vs, rfl, hb, hsecond⟩⟩
  | either left right ihLeft ihRight =>
    simp only [residual, yields_eitherOrNever_iff]
    rcases yields_either_iff.mp h with h | h
    · obtain ⟨b, hb⟩ := ihLeft h
      exact ⟨b, Or.inl hb⟩
    · obtain ⟨b, hb⟩ := ihRight h
      exact ⟨b, Or.inr hb⟩
  | many item ih =>
    simp only [residual, yields_viaOrNever_iff, yields_pairOrNever_iff]
    obtain ⟨us, vs, b, bs, rfl, hone, hrest⟩ := exists_item_of_yields_many h
    obtain ⟨c, hc⟩ := ih hone
    exact ⟨c :: bs, (c, bs), ⟨us, vs, rfl, hc, hrest⟩, rfl⟩
  | via f phrase ih =>
    obtain ⟨b, hb, -⟩ := yields_via_iff.mp h
    obtain ⟨c, hc⟩ := ih hb
    exact ⟨f c, yields_viaOrNever_iff.mpr ⟨c, hc, rfl⟩⟩

/-! ## First terminals -/

/-- A sentence starts with a terminal that may come first. -/
theorem mem_starts_of_yields {next : Token} {phrase : Phrase α} {ts : List Token} {a : α}
    (h : Yields phrase (next :: ts) a) : next.terminal ∈ phrase.starts := by
  induction phrase generalizing ts with
  | never => exact absurd h not_yields_never
  | done value => exact absurd (yields_done_iff.mp h).1 (List.cons_ne_nil _ _)
  | token terminal =>
    obtain ⟨hts, same⟩ := yields_token_iff.mp h
    obtain ⟨rfl, rfl⟩ := List.cons.inj hts
    exact List.mem_singleton.mpr same
  | pair first second ihFirst ihSecond =>
    rw [starts, List.mem_append]
    obtain ⟨us, vs, hts, hfirst, hsecond⟩ := yields_pair_iff.mp h
    rcases List.cons_eq_append_iff.mp hts with ⟨rfl, rfl⟩ | ⟨us, rfl, rfl⟩
    · rw [if_pos (isSome_emptyValue?_of_yields hfirst)]
      exact Or.inr (ihSecond hsecond)
    · exact Or.inl (ihFirst hfirst)
  | either left right ihLeft ihRight =>
    rw [starts, List.mem_append]
    rcases yields_either_iff.mp h with h | h
    · exact Or.inl (ihLeft h)
    · exact Or.inr (ihRight h)
  | many item ih =>
    obtain ⟨us, vs, b, bs, rfl, hone, -⟩ := exists_item_of_yields_many h
    exact ih hone
  | via f phrase ih =>
    obtain ⟨b, hb, -⟩ := yields_via_iff.mp h
    exact ih hb

/-- The phrase has a sentence. -/
def hasSentence : {α : Type} → Phrase α → Bool
  | _, never => false
  | _, done _ => true
  | _, token _ => true
  | _, pair first second => first.hasSentence && second.hasSentence
  | _, either left right => left.hasSentence || right.hasSentence
  | _, many _ => true
  | _, via _ phrase => phrase.hasSentence

/-- A **productive** phrase can be continued behind the first part of every pair. -/
def isProductive : {α : Type} → Phrase α → Bool
  | _, never => true
  | _, done _ => true
  | _, token _ => true
  | _, pair first second => first.isProductive && second.isProductive && second.hasSentence
  | _, either left right => left.isProductive && right.isProductive
  | _, many item => item.isProductive
  | _, via _ phrase => phrase.isProductive

/-- A phrase that has a sentence has one with a value. -/
theorem exists_yields_of_hasSentence {phrase : Phrase α} (h : phrase.hasSentence = true) :
    ∃ ts a, Yields phrase ts a := by
  induction phrase with
  | never => cases h
  | done value => exact ⟨[], value, .done _⟩
  | token terminal => exact ⟨_, ⟨terminal, [], {}, {}⟩, .token _ rfl⟩
  | pair first second ihFirst ihSecond =>
    rw [hasSentence, Bool.and_eq_true] at h
    obtain ⟨ts, a, hfirst⟩ := ihFirst h.1
    obtain ⟨us, b, hsecond⟩ := ihSecond h.2
    exact ⟨_, _, .pair hfirst hsecond⟩
  | either left right ihLeft ihRight =>
    rw [hasSentence, Bool.or_eq_true] at h
    rcases h with h | h
    · obtain ⟨ts, a, hleft⟩ := ihLeft h
      exact ⟨ts, a, .left hleft⟩
    · obtain ⟨ts, a, hright⟩ := ihRight h
      exact ⟨ts, a, .right hright⟩
  | many item _ => exact ⟨[], [], .none⟩
  | via f phrase ih =>
    obtain ⟨ts, a, hphrase⟩ := ih h
    exact ⟨ts, _, .via hphrase⟩

/-- A terminal that may come first in a productive phrase does so in a sentence. -/
theorem exists_yields_of_mem_starts {phrase : Phrase α} (hproductive : phrase.isProductive = true)
    {terminal : Terminal} (h : terminal ∈ phrase.starts) :
    ∃ next ts a, next.terminal = terminal ∧ Yields phrase (next :: ts) a := by
  induction phrase with
  | never => exact absurd h List.not_mem_nil
  | done value => exact absurd h List.not_mem_nil
  | token other =>
    obtain rfl := List.mem_singleton.mp h
    exact ⟨⟨terminal, [], {}, {}⟩, [], _, rfl, .token _ rfl⟩
  | pair first second ihFirst ihSecond =>
    simp only [isProductive, Bool.and_eq_true] at hproductive
    obtain ⟨⟨hfirst, hsecond⟩, hsentence⟩ := hproductive
    rw [starts, List.mem_append] at h
    rcases h with h | h
    · -- here the second part must have a sentence to go on with
      obtain ⟨next, ts, a, hnext, hts⟩ := ihFirst hfirst h
      obtain ⟨us, b, hus⟩ := exists_yields_of_hasSentence hsentence
      exact ⟨next, _, _, hnext, .pair hts hus⟩
    · split at h
      · next hempty =>
        obtain ⟨a, ha⟩ := isSome_emptyValue?_iff.mp hempty
        obtain ⟨next, ts, b, hnext, hts⟩ := ihSecond hsecond h
        exact ⟨next, ts, _, hnext, .pair ha hts⟩
      · exact absurd h List.not_mem_nil
  | either left right ihLeft ihRight =>
    rw [isProductive, Bool.and_eq_true] at hproductive
    rw [starts, List.mem_append] at h
    rcases h with h | h
    · obtain ⟨next, ts, a, hnext, hts⟩ := ihLeft hproductive.1 h
      exact ⟨next, ts, a, hnext, .left hts⟩
    · obtain ⟨next, ts, a, hnext, hts⟩ := ihRight hproductive.2 h
      exact ⟨next, ts, a, hnext, .right hts⟩
  | many item ih =>
    obtain ⟨next, ts, a, hnext, hts⟩ := ih hproductive h
    exact ⟨next, _, _, hnext, .more hts .none⟩
  | via f phrase ih =>
    obtain ⟨next, ts, a, hnext, hts⟩ := ih hproductive h
    exact ⟨next, ts, _, hnext, .via hts⟩

/-- The terminals of a phrase. -/
def terminals : {α : Type} → Phrase α → List Terminal
  | _, never => []
  | _, done _ => []
  | _, token terminal => [terminal]
  | _, pair first second => first.terminals ++ second.terminals
  | _, either left right => left.terminals ++ right.terminals
  | _, many item => item.terminals
  | _, via _ phrase => phrase.terminals

/-- What may come first is a terminal of the phrase. -/
theorem starts_subset_terminals (phrase : Phrase α) : phrase.starts ⊆ phrase.terminals := by
  induction phrase with
  | never => exact List.Subset.refl _
  | done value => exact List.Subset.refl _
  | token terminal => exact List.Subset.refl _
  | pair first second ihFirst ihSecond =>
    rw [starts, terminals]
    refine List.append_subset.mpr ⟨List.subset_append_of_subset_left _ ihFirst, ?_⟩
    split
    · exact List.subset_append_of_subset_right _ ihSecond
    · exact List.nil_subset _
  | either left right ihLeft ihRight =>
    exact List.append_subset.mpr ⟨List.subset_append_of_subset_left _ ihLeft,
      List.subset_append_of_subset_right _ ihRight⟩
  | many item ih => exact ih
  | via f phrase ih => exact ih

/-! ## What residuals keep -/

/-- Turning the value keeps a phrase productive. -/
@[simp] theorem isProductive_viaOrNever (f : α → β) (phrase : Phrase α) :
    (viaOrNever f phrase).isProductive = phrase.isProductive := by
  cases phrase <;> rfl

/-- Turning the value keeps the terminals. -/
@[simp] theorem terminals_viaOrNever (f : α → β) (phrase : Phrase α) :
    (viaOrNever f phrase).terminals = phrase.terminals := by
  cases phrase <;> rfl

/-- A pair of productive phrases is productive if its second part has a sentence. -/
theorem isProductive_pairOrNever {first : Phrase α} {second : Phrase β}
    (hfirst : first.isProductive = true) (hsecond : second.isProductive = true)
    (hsentence : second.hasSentence = true) :
    (pairOrNever first second).isProductive = true := by
  unfold pairOrNever
  split
  · rfl
  · rwa [isProductive_viaOrNever]
  · rw [isProductive, hfirst, hsecond, hsentence]
    rfl

/-- A pair has the terminals of its parts at most. -/
theorem terminals_pairOrNever_subset (first : Phrase α) (second : Phrase β) :
    (pairOrNever first second).terminals ⊆ first.terminals ++ second.terminals := by
  unfold pairOrNever
  split
  · exact List.nil_subset _
  · rw [terminals_viaOrNever]
    exact List.subset_append_right _ _
  · exact List.Subset.refl _

/-- A choice of productive phrases is productive. -/
theorem isProductive_eitherOrNever {left right : Phrase α} (hleft : left.isProductive = true)
    (hright : right.isProductive = true) : (eitherOrNever left right).isProductive = true := by
  unfold eitherOrNever
  split
  · exact hright
  · exact hleft
  · rw [isProductive, hleft, hright]
    rfl

/-- A choice has the terminals of its sides at most. -/
theorem terminals_eitherOrNever_subset (left right : Phrase α) :
    (eitherOrNever left right).terminals ⊆ left.terminals ++ right.terminals := by
  unfold eitherOrNever
  split
  · exact List.subset_append_right _ _
  · exact List.subset_append_left _ _
  · exact List.Subset.refl _

/-- What follows a token in a productive phrase is productive. -/
theorem isProductive_residual (next : Token) {phrase : Phrase α}
    (h : phrase.isProductive = true) : (phrase.residual next).isProductive = true := by
  induction phrase with
  | never => rfl
  | done value => rfl
  | token terminal =>
    rw [residual]
    split <;> rfl
  | pair first second ihFirst ihSecond =>
    simp only [isProductive, Bool.and_eq_true] at h
    obtain ⟨⟨hfirst, hsecond⟩, hsentence⟩ := h
    refine isProductive_eitherOrNever
      (isProductive_pairOrNever (ihFirst hfirst) hsecond hsentence) ?_
    split
    · rw [isProductive_viaOrNever]
      exact ihSecond hsecond
    · rfl
  | either left right ihLeft ihRight =>
    rw [isProductive, Bool.and_eq_true] at h
    exact isProductive_eitherOrNever (ihLeft h.1) (ihRight h.2)
  | many item ih =>
    rw [residual, isProductive_viaOrNever]
    exact isProductive_pairOrNever (ih h) h rfl
  | via f phrase ih =>
    rw [residual, isProductive_viaOrNever]
    exact ih h

/-- What follows a token has no other terminals than the phrase. -/
theorem terminals_residual_subset (next : Token) (phrase : Phrase α) :
    (phrase.residual next).terminals ⊆ phrase.terminals := by
  induction phrase with
  | never => exact List.nil_subset _
  | done value => exact List.nil_subset _
  | token terminal =>
    rw [residual]
    split <;> exact List.nil_subset _
  | pair first second ihFirst ihSecond =>
    refine List.Subset.trans (terminals_eitherOrNever_subset _ _) (List.append_subset.mpr ⟨?_, ?_⟩)
    · refine List.Subset.trans (terminals_pairOrNever_subset _ _) ?_
      exact List.append_subset.mpr ⟨List.subset_append_of_subset_left _ ihFirst,
        List.subset_append_right _ _⟩
    · split
      · rw [terminals_viaOrNever]
        exact List.subset_append_of_subset_right _ ihSecond
      · exact List.nil_subset _
  | either left right ihLeft ihRight =>
    refine List.Subset.trans (terminals_eitherOrNever_subset _ _) ?_
    exact List.append_subset.mpr ⟨List.subset_append_of_subset_left _ ihLeft,
      List.subset_append_of_subset_right _ ihRight⟩
  | many item ih =>
    rw [residual, terminals_viaOrNever]
    refine List.Subset.trans (terminals_pairOrNever_subset _ _) ?_
    exact List.append_subset.mpr ⟨ih, List.Subset.refl _⟩
  | via f phrase ih =>
    rw [residual, terminals_viaOrNever]
    exact ih

/-- A phrase with a sentence is not `never`. -/
theorem isNever_eq_false_of_yields {phrase : Phrase α} {ts : List Token} {a : α}
    (h : Yields phrase ts a) : phrase.isNever = false := by
  cases phrase with
  | never => exact absurd h not_yields_never
  | _ => rfl

/-! ## What may follow several tokens -/

/-- What may still follow after some tokens. -/
def after (phrase : Phrase α) (ts : List Token) : Phrase α :=
  ts.foldl (fun rest next => rest.residual next) phrase

/-- One more token has been read. -/
theorem after_concat (phrase : Phrase α) (ts : List Token) (next : Token) :
    phrase.after (ts ++ [next]) = (phrase.after ts).residual next := by
  rw [after, List.foldl_append]
  rfl

/-- A sentence of what may follow completes the tokens to a sentence. -/
theorem yields_of_after {phrase : Phrase α} {ts us : List Token} {a : α}
    (h : Yields (phrase.after ts) us a) : Yields phrase (ts ++ us) a := by
  induction ts generalizing phrase with
  | nil => exact h
  | cons next ts ih => exact yields_of_residual (ih h)

/-- What completes the tokens to a sentence is a sentence of what may follow. -/
theorem exists_yields_after {phrase : Phrase α} {ts us : List Token} {a : α}
    (h : Yields phrase (ts ++ us) a) : ∃ b, Yields (phrase.after ts) us b := by
  induction ts generalizing phrase a with
  | nil => exact ⟨a, h⟩
  | cons next ts ih =>
    obtain ⟨b, hb⟩ := exists_yields_residual h
    exact ih hb

/-- What may follow in a productive phrase is productive. -/
theorem isProductive_after {phrase : Phrase α} (h : phrase.isProductive = true)
    (ts : List Token) : (phrase.after ts).isProductive = true := by
  induction ts generalizing phrase with
  | nil => exact h
  | cons next ts ih => exact ih (isProductive_residual next h)

/-- What may follow has no other terminals than the phrase. -/
theorem terminals_after_subset (phrase : Phrase α) (ts : List Token) :
    (phrase.after ts).terminals ⊆ phrase.terminals := by
  induction ts generalizing phrase with
  | nil => exact List.Subset.refl _
  | cons next ts ih =>
    exact List.Subset.trans (ih (phrase.residual next)) (terminals_residual_subset next phrase)

end FrancaLint.Source.Phrase
