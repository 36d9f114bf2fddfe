import FrancaLint.Source.Token

/-! # Phrases

A **phrase** is a regular expression over tokens that yields a value. Its sentences are described
by the relation `Yields`; reading goes token by token, each time replacing the phrase by its
residual, the phrase of what may still follow.

Main definitions:

* `Phrase`, the expressions;
* `Phrase.Yields`, the sentences of a phrase and their values;
* `Phrase.residual`, the phrase of what may follow a token;
* `Phrase.starts`, the terminals that may come first. -/

namespace FrancaLint.Source

/-- A **phrase** and how its value comes from its tokens. -/
inductive Phrase : Type → Type 1 where
  /-- No sentence at all. -/
  | never {α : Type} : Phrase α
  /-- The empty sentence. -/
  | done {α : Type} (value : α) : Phrase α
  /-- One token of a terminal. -/
  | token (terminal : Terminal) : Phrase Token
  /-- One phrase and then another. -/
  | pair {α β : Type} (first : Phrase α) (second : Phrase β) : Phrase (α × β)
  /-- One phrase or another. -/
  | either {α : Type} (left right : Phrase α) : Phrase α
  /-- Any number of phrases. -/
  | many {α : Type} (item : Phrase α) : Phrase (List α)
  /-- A phrase whose value is turned into another one. -/
  | via {α β : Type} (f : α → β) (phrase : Phrase α) : Phrase β

namespace Phrase

variable {α β : Type}

/-- The sentences of a phrase, with their values. -/
inductive Yields : {α : Type} → Phrase α → List Token → α → Prop where
  /-- The empty sentence. -/
  | done {α : Type} (value : α) : Yields (.done value) [] value
  /-- One token. -/
  | token {terminal : Terminal} (token : Token) (same : token.terminal = terminal) :
      Yields (.token terminal) [token] token
  /-- One sentence after another. -/
  | pair {α β : Type} {first : Phrase α} {second : Phrase β} {ts us : List Token} {a : α} {b : β}
      (one : Yields first ts a) (two : Yields second us b) :
      Yields (.pair first second) (ts ++ us) (a, b)
  /-- A sentence of the left phrase. -/
  | left {α : Type} {left right : Phrase α} {ts : List Token} {a : α}
      (one : Yields left ts a) : Yields (.either left right) ts a
  /-- A sentence of the right phrase. -/
  | right {α : Type} {left right : Phrase α} {ts : List Token} {a : α}
      (one : Yields right ts a) : Yields (.either left right) ts a
  /-- No item. -/
  | none {α : Type} {item : Phrase α} : Yields (.many item) [] []
  /-- One more item. -/
  | more {α : Type} {item : Phrase α} {ts us : List Token} {a : α} {as : List α}
      (one : Yields item ts a) (rest : Yields (.many item) us as) :
      Yields (.many item) (ts ++ us) (a :: as)
  /-- A sentence with its value turned into another one. -/
  | via {α β : Type} {f : α → β} {phrase : Phrase α} {ts : List Token} {a : α}
      (one : Yields phrase ts a) : Yields (.via f phrase) ts (f a)

/-- The value of the empty sentence, if the phrase has it. -/
def emptyValue? : {α : Type} → Phrase α → Option α
  | _, never => none
  | _, done value => some value
  | _, token _ => none
  | _, pair first second =>
      match first.emptyValue?, second.emptyValue? with
      | some a, some b => some (a, b)
      | _, _ => none
  | _, either left right =>
      match left.emptyValue? with
      | some a => some a
      | none => right.emptyValue?
  | _, many _ => some []
  | _, via f phrase => phrase.emptyValue?.map f

/-- The terminals with which a sentence may start. -/
def starts : {α : Type} → Phrase α → List Terminal
  | _, never => []
  | _, done _ => []
  | _, token terminal => [terminal]
  | _, pair first second =>
      first.starts ++ if first.emptyValue?.isSome then second.starts else []
  | _, either left right => left.starts ++ right.starts
  | _, many item => item.starts
  | _, via _ phrase => phrase.starts

/-! ## Residuals

The constructors below are those of `Phrase` that drop phrases without sentences, so that a phrase
with no sentence left is `never` and nothing else. -/

/-- The phrase has no sentence. -/
def isNever : Phrase α → Bool
  | never => true
  | _ => false

/-- Turn the value of a phrase into another one. -/
def viaOrNever (f : α → β) : Phrase α → Phrase β
  | never => never
  | done value => done (f value)
  | via g phrase => via (f ∘ g) phrase
  | phrase => via f phrase

/-- One phrase and then another. -/
def pairOrNever (first : Phrase α) (second : Phrase β) : Phrase (α × β) :=
  match first with
  | never => never
  | done value => viaOrNever (fun b => (value, b)) second
  | first => pair first second

/-- One phrase or another. -/
def eitherOrNever (left right : Phrase α) : Phrase α :=
  match left, right with
  | never, right => right
  | left, never => left
  | left, right => either left right

/-- What may still follow after a token. -/
def residual (next : Token) : {α : Type} → Phrase α → Phrase α
  | _, never => never
  | _, done _ => never
  | _, token terminal => if next.terminal = terminal then done next else never
  | _, pair first second =>
      eitherOrNever (pairOrNever (first.residual next) second)
        (match first.emptyValue? with
          | some a => viaOrNever (fun b => (a, b)) (second.residual next)
          | none => never)
  | _, either left right => eitherOrNever (left.residual next) (right.residual next)
  | _, many item =>
      viaOrNever (fun (a, as) => a :: as) (pairOrNever (item.residual next) (many item))
  | _, via f phrase => viaOrNever f (phrase.residual next)

/-! ## Derived phrases -/

/-- A phrase that may be left out. -/
def optional (phrase : Phrase α) : Phrase (Option α) :=
  either (via some phrase) (done none)

/-- Two phrases of which only the second one's value is kept. -/
def skipThen (first : Phrase β) (second : Phrase α) : Phrase α :=
  via Prod.snd (pair first second)

/-- Two phrases of which only the first one's value is kept. -/
def thenSkip (first : Phrase α) (second : Phrase β) : Phrase α :=
  via Prod.fst (pair first second)

/-- One of several phrases. -/
def oneOf (phrases : List (Phrase α)) : Phrase α :=
  phrases.foldr either never

/-- A keyword or a mark. -/
def mark (spelling : String) : Phrase Token :=
  token (.fixed spelling)

/-- A keyword or a mark that may be left out; the value says whether it is there. -/
def flag (spelling : String) : Phrase Bool :=
  either (via (fun _ => true) (mark spelling)) (done false)

/-- An identifier. -/
def name : Phrase Token :=
  token .name

/-- Any number of phrases between braces. -/
def braced (phrase : Phrase α) : Phrase α :=
  skipThen (mark "\x7b") (thenSkip phrase (mark "\x7d"))

end Phrase

end FrancaLint.Source
