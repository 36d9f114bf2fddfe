import FrancaLint.Proofs.Source.Sentences

/-! # Phrases that need one token of lookahead

In a **deterministic** phrase the next token alone decides how a sentence goes on, so that no
sentence has two values.

* `Phrase.continues`, the terminals by which a sentence can be a part of a longer one, and
  `Phrase.isDeterministic`, which compares them with the terminals of what comes behind.
* `Phrase.comparesBy_continues`: of two sentences that start alike the longer one goes on by a
  continuing terminal.
* `Phrase.eq_of_yields`: sentences have one value.
* `Phrase.rivals`, the terminals that may stand where a given one may, with
  `Phrase.eq_or_mem_rivals`. -/

namespace FrancaLint.Source.Phrase

variable {α β : Type}

/-- The terminals that may follow a sentence within a longer sentence. -/
def continues : {α : Type} → Phrase α → List Terminal
  | _, never => []
  | _, done _ => []
  | _, token _ => []
  | _, pair first second =>
      second.continues ++ if second.emptyValue?.isSome then first.continues else []
  | _, either left right =>
      left.continues ++ right.continues ++
        if left.emptyValue?.isSome || right.emptyValue?.isSome then left.starts ++ right.starts
        else []
  | _, many item => item.continues ++ item.starts
  | _, via _ phrase => phrase.continues

/-- No terminal is in both lists. -/
def areApart (these those : List Terminal) : Bool :=
  these.all fun terminal => !those.contains terminal

/-- The next token decides how a sentence goes on: whether a part ends or goes on, which side of a
choice it belongs to, whether another item comes. -/
def isDeterministic : {α : Type} → Phrase α → Bool
  | _, never => true
  | _, done _ => true
  | _, token _ => true
  | _, pair first second =>
      first.isDeterministic && second.isDeterministic && areApart first.continues second.starts
  | _, either left right =>
      left.isDeterministic && right.isDeterministic && areApart left.starts right.starts &&
        !(left.emptyValue?.isSome && right.emptyValue?.isSome)
  | _, many item =>
      item.isDeterministic && areApart item.continues item.starts && !item.emptyValue?.isSome
  | _, via _ phrase => phrase.isDeterministic

/-- Lists that are apart have no terminal in common. -/
theorem not_mem_of_areApart {these those : List Terminal} (h : areApart these those = true)
    {terminal : Terminal} (hmem : terminal ∈ these) : terminal ∉ those := by
  have hnot := List.all_eq_true.mp h terminal hmem
  simpa using hnot

/-! ## One sentence at the start of another -/

/-- Two sentences of a phrase of which one starts the other are equal, and so are their values, or
the longer one goes on by a terminal of the list. -/
def ComparesBy (phrase : Phrase α) (terminals : List Terminal) : Prop :=
  ∀ ⦃ts us : List Token⦄ ⦃a b : α⦄, Yields phrase ts a → Yields phrase (ts ++ us) b →
    us = [] ∧ a = b ∨ ∃ next rest, us = next :: rest ∧ next.terminal ∈ terminals

/-- The parts behind two sentences start with terminals of a list. -/
def StartsIn (terminals : List Terminal) (ts : List Token) : Prop :=
  ∀ next rest, ts = next :: rest → next.terminal ∈ terminals

/-- A sentence starts with the terminals of its phrase. -/
theorem startsIn_of_yields {phrase : Phrase α} {ts : List Token} {a : α}
    (h : Yields phrase ts a) : StartsIn phrase.starts ts := by
  rintro next rest rfl
  exact mem_starts_of_yields h

section Parts

variable {first : Phrase α} {going starting : List Terminal}

/-- If two texts begin with a sentence and one text starts the other, then both sentences are the
same, or the shorter text ends with its sentence and the longer one goes on in it. -/
theorem ComparesBy.first_parts (h : first.ComparesBy going)
    (hapart : areApart going starting = true) {ts ts' us vs us' : List Token} {a a' : α}
    (hts : Yields first ts a) (hts' : Yields first ts' a') (hus : StartsIn starting us)
    (hus' : StartsIn starting us') (heq : ts ++ us ++ vs = ts' ++ us') :
    (ts = ts' ∧ a = a' ∧ us ++ vs = us') ∨
      us = [] ∧ ∃ next rest, vs = next :: rest ∧ next.terminal ∈ going := by
  rw [List.append_assoc] at heq
  -- one first part starts the other; what it goes on by does not start a second part
  rcases List.append_eq_append_iff.mp heq with ⟨more, rfl, hmore⟩ | ⟨more, rfl, rfl⟩
  · rcases h hts hts' with ⟨rfl, rfl⟩ | ⟨next, rest, rfl, hnext⟩
    · rw [List.append_nil]
      exact Or.inl ⟨rfl, rfl, hmore⟩
    · cases us with
      | nil => exact Or.inr ⟨rfl, next, _, hmore, hnext⟩
      | cons other us =>
        obtain ⟨rfl, -⟩ := List.cons.inj hmore
        exact absurd (hus _ _ rfl) (not_mem_of_areApart hapart hnext)
  · rcases h hts' hts with ⟨rfl, rfl⟩ | ⟨next, rest, rfl, hnext⟩
    · rw [List.append_nil]
      exact Or.inl ⟨rfl, rfl, rfl⟩
    · exact absurd (hus' _ _ rfl) (not_mem_of_areApart hapart hnext)

/-- If a sentence of one side of a choice starts a sentence of the other side, then it is empty and
the other one is not. -/
theorem first_of_other_side {one other : Phrase α}
    (hapart : ∀ terminal ∈ one.starts, terminal ∉ other.starts)
    (hempty : one.emptyValue?.isSome = true → other.emptyValue?.isSome = false)
    {ts us : List Token} {a b : α} (h : Yields one ts a) (h' : Yields other (ts ++ us) b) :
    one.emptyValue?.isSome = true ∧
      ∃ next rest, us = next :: rest ∧ next.terminal ∈ other.starts := by
  cases ts with
  | cons next ts => exact absurd (mem_starts_of_yields h') (hapart _ (mem_starts_of_yields h))
  | nil =>
    have hone := isSome_emptyValue?_of_yields h
    cases us with
    | cons next us => exact ⟨hone, next, us, rfl, mem_starts_of_yields h'⟩
    | nil =>
      rw [List.append_nil] at h'
      have hother := isSome_emptyValue?_of_yields h'
      rw [hempty hone] at hother
      cases hother

/-- The sides of a deterministic choice have no first terminal in common, and at most one of them
has the empty sentence. -/
theorem sides_of_isDeterministic {left right : Phrase α}
    (h : (either left right).isDeterministic = true) :
    left.isDeterministic = true ∧ right.isDeterministic = true ∧
      (∀ terminal ∈ left.starts, terminal ∉ right.starts) ∧
      (∀ terminal ∈ right.starts, terminal ∉ left.starts) ∧
      (left.emptyValue?.isSome = true → right.emptyValue?.isSome = false) ∧
      (right.emptyValue?.isSome = true → left.emptyValue?.isSome = false) := by
  simp only [isDeterministic, Bool.and_eq_true] at h
  obtain ⟨⟨⟨hleft, hright⟩, hapart⟩, hempty⟩ := h
  have hone : ∀ terminal ∈ left.starts, terminal ∉ right.starts :=
    fun terminal => not_mem_of_areApart hapart
  refine ⟨hleft, hright, hone, fun terminal hmem hmem' => hone terminal hmem' hmem, ?_, ?_⟩
  · intro hsome
    simpa [hsome] using hempty
  · intro hsome
    simpa [hsome] using hempty

/-- An item of a deterministic repetition is not empty, and no item starts as another one goes
on. -/
theorem item_of_isDeterministic {item : Phrase α} (h : (many item).isDeterministic = true) :
    item.isDeterministic = true ∧ areApart item.continues item.starts = true ∧
      ∀ a, ¬ Yields item [] a := by
  simp only [isDeterministic, Bool.and_eq_true] at h
  obtain ⟨⟨hitem, hapart⟩, hempty⟩ := h
  refine ⟨hitem, hapart, fun a ha => ?_⟩
  rw [isSome_emptyValue?_of_yields ha] at hempty
  cases hempty

/-- Sentences of a pair go on in their second parts, or in their first parts if the second part of
the shorter one is empty. -/
theorem ComparesBy.pair {second : Phrase β} {going' : List Terminal} (h : first.ComparesBy going)
    (h' : second.ComparesBy going') (hapart : areApart going second.starts = true) :
    (Phrase.pair first second).ComparesBy
      (going' ++ if second.emptyValue?.isSome then going else []) := by
  intro ts us a b hts hus
  obtain ⟨ts₁, ts₂, rfl, h₁, h₂⟩ := yields_pair_iff.mp hts
  obtain ⟨us₁, us₂, heq, h₁', h₂'⟩ := yields_pair_iff.mp hus
  rcases h.first_parts hapart h₁ h₁' (startsIn_of_yields h₂) (startsIn_of_yields h₂') heq with
    ⟨rfl, hvalue, rfl⟩ | ⟨rfl, next, rest, rfl, hnext⟩
  · rcases h' h₂ h₂' with ⟨rfl, hvalue'⟩ | ⟨next, rest, rfl, hnext⟩
    · exact Or.inl ⟨rfl, Prod.ext hvalue hvalue'⟩
    · exact Or.inr ⟨next, rest, rfl, List.mem_append_left _ hnext⟩
  · refine Or.inr ⟨next, rest, rfl, List.mem_append_right _ ?_⟩
    rwa [if_pos (isSome_emptyValue?_of_yields h₂)]

/-- Sentences of a repetition go on in their last item or by a further item. -/
theorem ComparesBy.many (h : first.ComparesBy going) (hapart : areApart going first.starts = true)
    (hempty : ∀ a, ¬ Yields first [] a) :
    (Phrase.many first).ComparesBy (going ++ first.starts) := by
  intro ts us as bs hts hus
  -- the items of the shorter sentence are the first ones of the longer sentence
  induction as generalizing ts bs with
  | nil =>
    obtain rfl := yields_many_nil_iff.mp hts
    cases us with
    | cons next us =>
      have hnext : next.terminal ∈ (Phrase.many first).starts := mem_starts_of_yields hus
      exact Or.inr ⟨next, us, rfl, List.mem_append_right _ hnext⟩
    | nil =>
      cases bs with
      | nil => exact Or.inl ⟨rfl, rfl⟩
      | cons b bs =>
        obtain ⟨ts, us, heq, hone, -⟩ := yields_many_cons_iff.mp hus
        obtain ⟨rfl, -⟩ := List.append_eq_nil_iff.mp heq.symm
        exact absurd hone (hempty b)
  | cons a as ih =>
    obtain ⟨ts₁, ts₂, rfl, h₁, h₂⟩ := yields_many_cons_iff.mp hts
    cases bs with
    | nil =>
      have hnil := yields_many_nil_iff.mp hus
      rw [List.append_assoc] at hnil
      obtain ⟨rfl, -⟩ := List.append_eq_nil_iff.mp hnil
      exact absurd h₁ (hempty a)
    | cons b bs =>
      obtain ⟨us₁, us₂, heq, h₁', h₂'⟩ := yields_many_cons_iff.mp hus
      have hstart : StartsIn (Phrase.many first).starts ts₂ := startsIn_of_yields h₂
      have hstart' : StartsIn (Phrase.many first).starts us₂ := startsIn_of_yields h₂'
      rcases h.first_parts hapart h₁ h₁' hstart hstart' heq with
        ⟨rfl, rfl, rfl⟩ | ⟨rfl, next, rest, rfl, hnext⟩
      · rcases ih h₂ h₂' with ⟨rfl, rfl⟩ | hnext
        · exact Or.inl ⟨rfl, rfl⟩
        · exact Or.inr hnext
      · exact Or.inr ⟨next, rest, rfl, List.mem_append_left _ hnext⟩

end Parts

/-- Of two sentences of a deterministic phrase that start alike the longer one goes on by a
continuing terminal. -/
theorem comparesBy_continues {phrase : Phrase α} (hdet : phrase.isDeterministic = true) :
    phrase.ComparesBy phrase.continues := by
  induction phrase with
  | never =>
    intro ts us a b h
    exact absurd h not_yields_never
  | done value =>
    intro ts us a b h h'
    obtain ⟨rfl, rfl⟩ := yields_done_iff.mp h
    obtain ⟨hus, rfl⟩ := yields_done_iff.mp h'
    exact Or.inl ⟨hus, rfl⟩
  | token terminal =>
    intro ts us a b h h'
    obtain ⟨rfl, -⟩ := yields_token_iff.mp h
    obtain ⟨heq, -⟩ := yields_token_iff.mp h'
    obtain ⟨rfl, rfl⟩ := List.cons.inj heq
    exact Or.inl ⟨rfl, rfl⟩
  | pair first second ihFirst ihSecond =>
    simp only [isDeterministic, Bool.and_eq_true] at hdet
    obtain ⟨⟨hfirst, hsecond⟩, hapart⟩ := hdet
    exact (ihFirst hfirst).pair (ihSecond hsecond) hapart
  | either left right ihLeft ihRight =>
    obtain ⟨hleft, hright, hapart, hapart', hempty, hempty'⟩ := sides_of_isDeterministic hdet
    intro ts us a b h h'
    -- sentences of different sides have only an empty start in common
    simp only [continues, List.mem_append]
    rcases yields_either_iff.mp h with h | h <;> rcases yields_either_iff.mp h' with h' | h'
    · rcases ihLeft hleft h h' with heq | ⟨next, rest, rfl, hnext⟩
      · exact Or.inl heq
      · exact Or.inr ⟨next, rest, rfl, Or.inl (Or.inl hnext)⟩
    · obtain ⟨hsome, next, rest, rfl, hnext⟩ := first_of_other_side hapart hempty h h'
      refine Or.inr ⟨next, rest, rfl, Or.inr ?_⟩
      rw [hsome, Bool.true_or, if_pos rfl]
      exact List.mem_append_right _ hnext
    · obtain ⟨hsome, next, rest, rfl, hnext⟩ := first_of_other_side hapart' hempty' h h'
      refine Or.inr ⟨next, rest, rfl, Or.inr ?_⟩
      rw [hsome, Bool.or_true, if_pos rfl]
      exact List.mem_append_left _ hnext
    · rcases ihRight hright h h' with heq | ⟨next, rest, rfl, hnext⟩
      · exact Or.inl heq
      · exact Or.inr ⟨next, rest, rfl, Or.inl (Or.inr hnext)⟩
  | many item ih =>
    obtain ⟨hitem, hapart, hempty⟩ := item_of_isDeterministic hdet
    exact (ih hitem).many hapart hempty
  | via f phrase ih =>
    intro ts us a b h h'
    obtain ⟨c, hc, rfl⟩ := yields_via_iff.mp h
    obtain ⟨d, hd, rfl⟩ := yields_via_iff.mp h'
    rcases ih hdet hc hd with ⟨rfl, rfl⟩ | hnext
    · exact Or.inl ⟨rfl, rfl⟩
    · exact Or.inr hnext

/-- A sentence of a deterministic phrase has one value. -/
theorem eq_of_yields {phrase : Phrase α} (hdet : phrase.isDeterministic = true) {ts : List Token}
    {a b : α} (h : Yields phrase ts a) (h' : Yields phrase ts b) : a = b := by
  rw [← List.append_nil ts] at h'
  rcases comparesBy_continues hdet h h' with ⟨-, heq⟩ | ⟨next, rest, hnil, -⟩
  · exact heq
  · exact absurd hnil (List.cons_ne_nil _ _).symm

/-! ## Rivals of a terminal -/

/-- The terminals that may stand, behind the same tokens, where a given terminal may stand. -/
def rivals (terminal : Terminal) : {α : Type} → Phrase α → List Terminal
  | _, never => []
  | _, done _ => []
  | _, token _ => []
  | _, pair first second =>
      first.rivals terminal ++ second.rivals terminal ++
        ((if terminal ∈ first.continues then second.starts else []) ++
          if terminal ∈ second.starts then first.continues else [])
  | _, either left right =>
      left.rivals terminal ++ right.rivals terminal ++
        ((if terminal ∈ left.starts then right.starts else []) ++
          if terminal ∈ right.starts then left.starts else [])
  | _, many item =>
      item.rivals terminal ++
        ((if terminal ∈ item.continues then item.starts else []) ++
          if terminal ∈ item.starts then item.continues else [])
  | _, via _ phrase => phrase.rivals terminal

/-- A token of two joined parts belongs to the first one or to the second one. -/
theorem split_at_token {ws us ts₁ ts₂ : List Token} {x : Token}
    (heq : ws ++ x :: us = ts₁ ++ ts₂) :
    (∃ us', ts₁ = ws ++ x :: us') ∨ ∃ more, ws = ts₁ ++ more ∧ ts₂ = more ++ x :: us := by
  rcases List.append_eq_append_iff.mp heq with ⟨more, hts₁, hmore⟩ | ⟨more, hws, hts₂⟩
  · rcases List.cons_eq_append_iff.mp hmore with ⟨rfl, hts₂⟩ | ⟨us', rfl, -⟩
    · rw [List.append_nil] at hts₁
      exact Or.inr ⟨[], by rw [hts₁, List.append_nil], hts₂⟩
    · exact Or.inl ⟨us', hts₁⟩
  · exact Or.inr ⟨more, hws, hts₂⟩

/-- If one sentence has come to its second part where another one has not, then the other one goes
on in its first part. -/
theorem ComparesBy.going_of_split {first : Phrase α} {going starting : List Terminal}
    (h : first.ComparesBy going) (hapart : areApart going starting = true)
    {ts more us vs : List Token} {x y : Token} {a a' : α}
    (hlong : Yields first (ts ++ more ++ x :: us) a) (hshort : Yields first ts a')
    (hstart : StartsIn starting (more ++ y :: vs)) :
    x.terminal ∈ going ∧ y.terminal ∈ starting := by
  rw [List.append_assoc] at hlong
  rcases h hshort hlong with ⟨hnil, -⟩ | ⟨next, rest, heq, hnext⟩
  · exact absurd (List.append_eq_nil_iff.mp hnil).2 (List.cons_ne_nil _ _)
  · cases more with
    | nil =>
      obtain ⟨rfl, -⟩ := List.cons.inj heq
      exact ⟨hnext, hstart y vs rfl⟩
    | cons other more =>
      obtain ⟨rfl, -⟩ := List.cons.inj heq
      exact absurd (hstart _ _ rfl) (not_mem_of_areApart hapart hnext)

/-- If both sentences have come to their second parts, then their first parts do not differ. -/
theorem ComparesBy.eq_nil_of_split {first : Phrase α} {going starting : List Terminal}
    (h : first.ComparesBy going) (hapart : areApart going starting = true)
    {ts extra rest : List Token} {a a' : α} (hshort : Yields first ts a)
    (hlong : Yields first (ts ++ extra) a') (hstart : StartsIn starting (extra ++ rest)) :
    extra = [] := by
  rcases h hshort hlong with ⟨hnil, -⟩ | ⟨next, others, rfl, hnext⟩
  · exact hnil
  · exact absurd (hstart _ _ rfl) (not_mem_of_areApart hapart hnext)

/-- Where two sentences of a pair part, either both are in their first parts, or both are in their
second parts behind the same first part, or one of them goes on in its first part while the other
one has come to its second part. -/
theorem ComparesBy.parting {first : Phrase α} {going starting : List Terminal}
    (h : first.ComparesBy going) (hapart : areApart going starting = true)
    {ws us vs ts₁ ts₂ ts₁' ts₂' : List Token} {x y : Token} {a a' : α}
    (h₁ : Yields first ts₁ a) (h₁' : Yields first ts₁' a') (h₂ : StartsIn starting ts₂)
    (h₂' : StartsIn starting ts₂') (heq : ws ++ x :: us = ts₁ ++ ts₂)
    (heq' : ws ++ y :: vs = ts₁' ++ ts₂') :
    (∃ us' vs', ts₁ = ws ++ x :: us' ∧ ts₁' = ws ++ y :: vs') ∨
      (∃ more, ts₁ = ts₁' ∧ ts₂ = more ++ x :: us ∧ ts₂' = more ++ y :: vs) ∨
      (x.terminal ∈ going ∧ y.terminal ∈ starting) ∨
      (x.terminal ∈ starting ∧ y.terminal ∈ going) := by
  rcases split_at_token heq with ⟨us', rfl⟩ | ⟨more, rfl, rfl⟩
  · rcases split_at_token heq' with ⟨vs', rfl⟩ | ⟨more', rfl, rfl⟩
    · exact Or.inl ⟨us', vs', rfl, rfl⟩
    · exact Or.inr (Or.inr (Or.inl (h.going_of_split hapart h₁ h₁' h₂')))
  · rcases split_at_token heq' with ⟨vs', rfl⟩ | ⟨more', hmore, rfl⟩
    · exact Or.inr (Or.inr (Or.inr (h.going_of_split hapart h₁' h₁ h₂).symm))
    · -- both are in their second parts, whose first terminals keep the first parts from differing
      rcases List.append_eq_append_iff.mp hmore with ⟨extra, rfl, rfl⟩ | ⟨extra, rfl, rfl⟩
      · rw [List.append_assoc] at h₂
        obtain rfl := h.eq_nil_of_split hapart h₁ h₁' h₂
        exact Or.inr (Or.inl ⟨more', (List.append_nil _).symm, rfl, rfl⟩)
      · rw [List.append_assoc] at h₂'
        obtain rfl := h.eq_nil_of_split hapart h₁' h₁ h₂'
        exact Or.inr (Or.inl ⟨more, List.append_nil _, rfl, rfl⟩)

/-- Where two sentences of a pair part, the terminals are rivals if they are wherever both sentences
are in their first parts or both in their second parts, and if the terminals of one part are rivals
of those of the other. -/
theorem ComparesBy.eq_or_mem_of_parting {first : Phrase α} {going starting rivals : List Terminal}
    (h : first.ComparesBy going) (hapart : areApart going starting = true)
    {ws us vs ts₁ ts₂ ts₁' ts₂' : List Token} {x y : Token} {a a' : α}
    (h₁ : Yields first ts₁ a) (h₁' : Yields first ts₁' a') (h₂ : StartsIn starting ts₂)
    (h₂' : StartsIn starting ts₂') (heq : ws ++ x :: us = ts₁ ++ ts₂)
    (heq' : ws ++ y :: vs = ts₁' ++ ts₂')
    (hacross : ((if x.terminal ∈ going then starting else []) ++
      if x.terminal ∈ starting then going else []) ⊆ rivals)
    (hfirst : ∀ us' vs', ts₁ = ws ++ x :: us' → ts₁' = ws ++ y :: vs' →
      y.terminal = x.terminal ∨ y.terminal ∈ rivals)
    (hsecond : ∀ more, ts₂ = more ++ x :: us → ts₂' = more ++ y :: vs →
      y.terminal = x.terminal ∨ y.terminal ∈ rivals) :
    y.terminal = x.terminal ∨ y.terminal ∈ rivals := by
  rcases h.parting hapart h₁ h₁' h₂ h₂' heq heq' with
    ⟨us', vs', hx, hy⟩ | ⟨more, -, hx, hy⟩ | ⟨hx, hy⟩ | ⟨hx, hy⟩
  · exact hfirst us' vs' hx hy
  · exact hsecond more hx hy
  · exact Or.inr (hacross (List.mem_append_left _ (by rwa [if_pos hx])))
  · exact Or.inr (hacross (List.mem_append_right _ (by rwa [if_pos hx])))

/-- Where sentences of two sides of a choice part, no token has been read. -/
theorem mem_starts_of_other_side {one other : Phrase α}
    (hapart : ∀ terminal ∈ one.starts, terminal ∉ other.starts) {ws us vs : List Token}
    {x y : Token} {a b : α} (h : Yields one (ws ++ x :: us) a)
    (h' : Yields other (ws ++ y :: vs) b) :
    x.terminal ∈ one.starts ∧ y.terminal ∈ other.starts := by
  cases ws with
  | nil => exact ⟨mem_starts_of_yields h, mem_starts_of_yields h'⟩
  | cons next ws => exact absurd (mem_starts_of_yields h') (hapart _ (mem_starts_of_yields h))

/-- Where a terminal may stand in a deterministic phrase, no other terminals may stand than its
rivals. -/
theorem eq_or_mem_rivals {phrase : Phrase α} (hdet : phrase.isDeterministic = true)
    {ws us vs : List Token} {x y : Token} {a b : α} (h : Yields phrase (ws ++ x :: us) a)
    (h' : Yields phrase (ws ++ y :: vs) b) :
    y.terminal = x.terminal ∨ y.terminal ∈ phrase.rivals x.terminal := by
  induction phrase generalizing ws us vs with
  | never => exact absurd h not_yields_never
  | done value =>
    have hnil := (yields_done_iff.mp h).1
    exact absurd (List.append_eq_nil_iff.mp hnil).2 (List.cons_ne_nil _ _)
  | token terminal =>
    obtain ⟨hx, hxt⟩ := yields_token_iff.mp h
    obtain ⟨hy, hyt⟩ := yields_token_iff.mp h'
    cases ws with
    | nil =>
      obtain ⟨rfl, -⟩ := List.cons.inj hx
      obtain ⟨rfl, -⟩ := List.cons.inj hy
      exact Or.inl (hyt.trans hxt.symm)
    | cons next ws =>
      have hnil := (List.cons.inj hx).2
      exact absurd (List.append_eq_nil_iff.mp hnil).2 (List.cons_ne_nil _ _)
  | pair first second ihFirst ihSecond =>
    simp only [isDeterministic, Bool.and_eq_true] at hdet
    obtain ⟨⟨hfirst, hsecond⟩, hapart⟩ := hdet
    obtain ⟨ts₁, ts₂, heq, h₁, h₂⟩ := yields_pair_iff.mp h
    obtain ⟨ts₁', ts₂', heq', h₁', h₂'⟩ := yields_pair_iff.mp h'
    refine (comparesBy_continues hfirst).eq_or_mem_of_parting hapart h₁ h₁' (startsIn_of_yields h₂)
      (startsIn_of_yields h₂') heq heq' (List.subset_append_right _ _) ?_ ?_
    · rintro us' vs' rfl rfl
      exact (ihFirst hfirst h₁ h₁').imp_right fun hrival =>
        List.mem_append_left _ (List.mem_append_left _ hrival)
    · rintro more rfl rfl
      exact (ihSecond hsecond h₂ h₂').imp_right fun hrival =>
        List.mem_append_left _ (List.mem_append_right _ hrival)
  | either left right ihLeft ihRight =>
    obtain ⟨hleft, hright, hapart, hapart', -, -⟩ := sides_of_isDeterministic hdet
    simp only [rivals, List.mem_append]
    rcases yields_either_iff.mp h with h | h <;> rcases yields_either_iff.mp h' with h' | h'
    · rcases ihLeft hleft h h' with hsame | hrival
      · exact Or.inl hsame
      · exact Or.inr (Or.inl (Or.inl hrival))
    · obtain ⟨hx, hy⟩ := mem_starts_of_other_side hapart h h'
      rw [if_pos hx]
      exact Or.inr (Or.inr (Or.inl hy))
    · obtain ⟨hx, hy⟩ := mem_starts_of_other_side hapart' h h'
      rw [if_pos hx]
      exact Or.inr (Or.inr (Or.inr hy))
    · rcases ihRight hright h h' with hsame | hrival
      · exact Or.inl hsame
      · exact Or.inr (Or.inl (Or.inr hrival))
  | many item ih =>
    obtain ⟨hitem, hapart, -⟩ := item_of_isDeterministic hdet
    -- an induction on the items of one sentence, which the other sentence shares as long as the
    -- tokens are the same
    induction a generalizing ws us vs b with
    | nil =>
      have hnil := yields_many_nil_iff.mp h
      exact absurd (List.append_eq_nil_iff.mp hnil).2 (List.cons_ne_nil _ _)
    | cons a as ihRest =>
      cases b with
      | nil =>
        have hnil := yields_many_nil_iff.mp h'
        exact absurd (List.append_eq_nil_iff.mp hnil).2 (List.cons_ne_nil _ _)
      | cons b bs =>
        obtain ⟨ts₁, ts₂, heq, h₁, h₂⟩ := yields_many_cons_iff.mp h
        obtain ⟨ts₁', ts₂', heq', h₁', h₂'⟩ := yields_many_cons_iff.mp h'
        have hstart : StartsIn (many item).starts ts₂ := startsIn_of_yields h₂
        have hstart' : StartsIn (many item).starts ts₂' := startsIn_of_yields h₂'
        refine (comparesBy_continues hitem).eq_or_mem_of_parting hapart h₁ h₁' hstart hstart' heq
          heq' (List.subset_append_right _ _) ?_ ?_
        · rintro us' vs' rfl rfl
          exact (ih hitem h₁ h₁').imp_right (List.mem_append_left _)
        · rintro more rfl rfl
          exact ihRest h₂ h₂'
  | via f phrase ih =>
    obtain ⟨c, hc, -⟩ := yields_via_iff.mp h
    obtain ⟨d, hd, -⟩ := yields_via_iff.mp h'
    exact ih hdet hc hd

end FrancaLint.Source.Phrase
