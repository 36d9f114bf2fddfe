import FrancaLint.Proofs.Source.Occurrences
import FrancaLint.Proofs.Source.Pieces
import FrancaLint.Proofs.Source.Writer

/-! # Spans are exact

The span of a declared name cuts that name out of its line, and the span of a reference cuts out the
text of the reference, with the layout in it.

* `Label.StandsIn` and `TypeRef.StandsIn`: what is cut out of a text, by lines and columns alone.
* `Position.advance_eq`: a position counts the lines in front of it, and the characters of the last
  one.
* `withoutLayout` and `Reads.withoutLayout_eq`: without layout, a text that tokens are read from is
  that of the tokens.
* `Reads.exists_excerpt`: tokens that follow one another stand in an excerpt of the text.
* `spans_are_exact`: all names and references of a document stand in its text. -/

namespace FrancaLint

open Source Phrase

/-! ## Excerpts of a text -/

/-- The lines of a text, each without the line feed that ends it. -/
def linesOf (text : List Char) : List (List Char) :=
  text.splitOn '\n'

/-- The line that a text leads into, counted from one. -/
def lineBehind (text : List Char) : Nat :=
  (linesOf text).length

/-- The column behind a text in its last line, counted from one. -/
def columnBehind (text : List Char) : Nat :=
  ((linesOf text).getLastD []).length + 1

/-- The text without blanks, comments and annotations. -/
def withoutLayout (text : List Char) : List Char :=
  match found : layoutPiece? text with
  | some (_, rest) =>
      have : rest.length < text.length := length_of_layoutPiece? found
      withoutLayout rest
  | none =>
      match text with
      | [] => []
      | c :: rest => c :: withoutLayout rest
termination_by text.length

/-- The name **stands** in a text where its span says: in one line, from the first column up to the
last one. -/
def Label.StandsIn (text path : String) (label : Label) : Prop :=
  ∃ (n : Nat) (front back : List Char),
    (linesOf text.toList)[n]? = some (front ++ label.name.toList ++ back) ∧
      label.span = {
        file := some path, line := some (n + 1), column := some (front.length + 1),
        endLine := some (n + 1), endColumn := some (front.length + 1 + label.name.length) }

/-- The reference **stands** in a text where its span says, possibly with layout in it. -/
def TypeRef.StandsIn (text path : String) (ref : TypeRef) : Prop :=
  ∃ front part back, text.toList = front ++ part ++ back ∧
    withoutLayout part = ref.target.toList ∧
      ref.span = {
        file := some path, line := some (lineBehind front), column := some (columnBehind front),
        endLine := some (lineBehind (front ++ part)),
        endColumn := some (columnBehind (front ++ part)) }

/-! ## Lines and positions -/

/-- The lines of a text that goes on: the last line of the front goes on with the first one of the
back. -/
theorem linesOf_append (front back : List Char) :
    linesOf (front ++ back) = (linesOf front).dropLast ++
      (linesOf back).modifyHead ((linesOf front).getLastD [] ++ ·) := by
  unfold linesOf
  induction front with
  | nil =>
    cases hback : back.splitOn '\n' with
    | nil => exact absurd hback (List.splitOn_ne_nil _ _)
    | cons first others => simp [hback]
  | cons c front ih =>
    rw [List.cons_append, List.splitOn_cons_eq_if_modifyHead, List.splitOn_cons_eq_if_modifyHead,
      ih]
    obtain ⟨first, others, hlines⟩ := List.exists_cons_of_ne_nil (List.splitOn_ne_nil '\n' front)
    rw [hlines]
    split
    · rfl
    · cases others with
      | nil => cases hback : back.splitOn '\n' <;> rfl
      | cons second others => rfl

/-- A text without line feeds is one line. -/
theorem linesOf_of_not_mem {text : List Char} (h : '\n' ∉ text) : linesOf text = [text] :=
  List.splitOn_eq_singleton h

/-- The first lines of a text, and its last one. -/
theorem linesOf_eq (text : List Char) :
    linesOf text = (linesOf text).dropLast ++ [(linesOf text).getLastD []] := by
  have happend := linesOf_append text []
  rw [List.append_nil] at happend
  exact happend.trans (by simp [linesOf_of_not_mem])

/-- A position counts the lines in front of it, and the characters of the last one. -/
theorem Source.Position.advance_eq (text : List Char) :
    Position.advance {} text = ⟨lineBehind text, columnBehind text⟩ := by
  induction text using List.reverseRecOn with
  | nil => rfl
  | append_singleton text c ih =>
    rw [Position.advance_append, ih]
    show Position.next _ c = _
    have hlines := linesOf_append text [c]
    have hlength := congrArg List.length (linesOf_eq text)
    rw [List.length_append, List.length_singleton] at hlength
    unfold Position.next lineBehind columnBehind
    by_cases hc : c = '\n'
    · have hend : linesOf [c] = [[], []] := by rw [hc]; rfl
      rw [hend] at hlines
      rw [if_pos hc, hlines, hlength]
      simp
    · have hend : linesOf [c] = [[c]] := linesOf_of_not_mem (by simpa using Ne.symm hc)
      rw [hend] at hlines
      rw [if_neg hc, hlines, hlength]
      simp

/-- A text without line feeds moves a position along its line. -/
theorem Source.Position.advance_of_not_mem {text : List Char} (h : '\n' ∉ text) (pos : Position) :
    pos.advance text = ⟨pos.line, pos.column + text.length⟩ := by
  induction text generalizing pos with
  | nil => rfl
  | cons c rest ih =>
    rw [List.mem_cons, not_or] at h
    have hnext : pos.next c = ⟨pos.line, pos.column + 1⟩ := if_neg (Ne.symm h.1)
    show (pos.next c).advance rest = _
    rw [hnext, ih h.2, List.length_cons, Nat.add_assoc, Nat.add_comm 1]

/-- A name in one line stands where it starts and stops. -/
theorem Label.standsIn_of_position {text path : String} {label : Label} {front back : List Char}
    (htext : text.toList = front ++ (label.name.toList ++ back)) (hline : '\n' ∉ label.name.toList)
    {start stop : Position} (hstart : start = Position.advance {} front)
    (hstop : stop = start.advance label.name.toList)
    (hspan : label.span = {
      file := some path, line := some start.line, column := some start.column,
      endLine := some stop.line, endColumn := some stop.column }) : label.StandsIn text path := by
  obtain ⟨next, others, hback⟩ := List.exists_cons_of_ne_nil (List.splitOn_ne_nil '\n' back)
  have hname : linesOf (label.name.toList ++ back) = (label.name.toList ++ next) :: others := by
    rw [linesOf_append, linesOf_of_not_mem hline, linesOf, hback]
    rfl
  have hlines : linesOf text.toList = (linesOf front).dropLast ++
      ((linesOf front).getLastD [] ++ (label.name.toList ++ next)) :: others := by
    rw [htext, linesOf_append, hname]
    rfl
  have hlength : lineBehind front = (linesOf front).dropLast.length + 1 := by
    have hlength := congrArg List.length (linesOf_eq front)
    rwa [List.length_append, List.length_singleton] at hlength
  refine ⟨(linesOf front).dropLast.length, (linesOf front).getLastD [], next, ?_, ?_⟩
  · rw [hlines, List.getElem?_append_right (Nat.le_refl _), Nat.sub_self, List.append_assoc]
    rfl
  · rw [Position.advance_eq, hlength] at hstart
    rw [hspan, hstop, Position.advance_of_not_mem hline, hstart, columnBehind]
    simp [String.length_toList]

/-! ## Excerpts that tokens are read from -/

namespace Source

/-- In front of a text that starts no layout nothing is left out. -/
theorem withoutLayout_cons {c : Char} {rest : List Char} (h : ¬ StartsLayout (c :: rest)) :
    withoutLayout (c :: rest) = c :: withoutLayout rest := by
  rw [withoutLayout]
  split
  · next found =>
    have hstarts := (isPiece_of_layoutPiece? found).startsLayout
    rw [append_of_layoutPiece? found] at hstarts
    exact absurd hstarts h
  · rfl

/-- Layout at the start of a text is left out. -/
theorem withoutLayout_dropLayout (text : List Char) :
    withoutLayout (dropLayout text).2 = withoutLayout text := by
  fun_induction dropLayout text with
  | case1 text hnone => rfl
  | case2 text piece rest hsome _ more after hsplit ih =>
    rw [hsplit] at ih
    rw [ih]
    conv => rhs; rw [withoutLayout]
    split
    · next hpiece =>
      rw [hsome] at hpiece
      cases hpiece
      rfl
    · next hnone =>
      rw [hsome] at hnone
      cases hnone

/-- No character of a word starts layout. -/
def IsPlain (lexeme : List Char) : Prop :=
  ∀ c ∈ lexeme, ∀ rest, ¬ StartsLayout (c :: rest)

/-- A word of which no character starts layout is kept. -/
theorem withoutLayout_append_of_isPlain {lexeme : List Char} (h : IsPlain lexeme)
    (rest : List Char) : withoutLayout (lexeme ++ rest) = lexeme ++ withoutLayout rest := by
  induction lexeme with
  | nil => rfl
  | cons c lexeme ih =>
    have hc := h c List.mem_cons_self
    rw [List.cons_append, withoutLayout_cons (hc _),
      ih fun d hd => h d (List.mem_cons_of_mem _ hd), List.cons_append]

namespace Reads

variable {pos stop : Position} {text left : List Char} {tokens : List Token}

/-- What tokens are read from is the front of the text. -/
theorem exists_front (h : Reads pos text tokens stop left) :
    ∃ front, text = front ++ left ∧ stop = pos.advance front := by
  induction h with
  | stop pos text => exact ⟨[], rfl, rfl⟩
  | @word pos stop text rest left token tokens htaken _ ih =>
    obtain ⟨front, rfl, rfl⟩ := ih
    refine ⟨(dropLayout text).1 ++ token.lexeme ++ front, ?_, ?_⟩
    · rw [List.append_assoc, htaken.text_eq]
    · rw [htaken.stop_eq_advance, ← Position.advance_append]

/-- Tokens are read one part behind the other. -/
theorem append {ts us : List Token} (h : Reads pos text (ts ++ us) stop left) :
    ∃ mid rest, Reads pos text ts mid rest ∧ Reads mid rest us stop left := by
  induction ts generalizing pos text with
  | nil => exact ⟨pos, text, .stop pos text, h⟩
  | cons token ts ih =>
    cases h with
    | word htaken hrest =>
      obtain ⟨mid, rest, hts, hus⟩ := ih hrest
      exact ⟨mid, rest, .word htaken hts, hus⟩

/-- The reading stops behind the last token. -/
theorem stop_eq (h : Reads pos text tokens stop left) :
    stop = (tokens.getLast?.map Token.stop).getD pos := by
  induction h with
  | stop pos text => rfl
  | @word pos stop text rest left token tokens _ _ ih =>
    rw [ih, List.getLast?_cons]
    cases tokens.getLast? <;> rfl

/-- Without layout, the text that plain tokens are read from is that of the tokens. -/
theorem withoutLayout_eq {front : List Char} (h : Reads pos (front ++ left) tokens stop left)
    (hplain : ∀ t ∈ tokens, IsPlain t.lexeme) :
    withoutLayout front = tokens.flatMap Token.lexeme := by
  generalize htext : front ++ left = text at h
  induction h generalizing front with
  | stop pos text =>
    rw [List.append_left_eq_self.mp htext, List.flatMap_nil]
    rw [withoutLayout]
    rfl
  | @word pos stop text rest left token tokens htaken hrest ih =>
    rw [List.forall_mem_cons] at hplain
    obtain ⟨behind, rfl, -⟩ := hrest.exists_front
    obtain rfl : front = (dropLayout text).1 ++ (token.lexeme ++ behind) := by
      refine List.append_cancel_right (htext.trans (htaken.text_eq.symm.trans ?_))
      simp
    -- the token starts no layout, so that the layout in front of it is found again
    obtain ⟨c, cs, hcons⟩ := List.exists_cons_of_ne_nil htaken.lexeme_ne_nil
    have hhead : (token.lexeme ++ behind).head? = (dropLayout text).2.head? := by
      rw [htaken.body_eq, hcons]
      rfl
    have hbody : ¬ StartsLayout (token.lexeme ++ behind) := by
      rw [hcons]
      exact hplain.1 c (hcons ▸ List.mem_cons_self) _
    rw [← withoutLayout_dropLayout, dropLayout_congr (Prod.eta _).symm hhead hbody,
      withoutLayout_append_of_isPlain hplain.1, ih hplain.2 rfl, List.flatMap_cons]

/-- Tokens that follow one another stand in an excerpt of the text, from where the first one starts
up to where the last one stops. -/
theorem exists_excerpt (h : Reads pos text tokens stop left) {first : Token} {others : List Token}
    (hpart : first :: others <:+: tokens)
    (hplain : ∀ t ∈ first :: others, IsPlain t.lexeme) :
    ∃ front part back, text = front ++ part ++ back ∧ first.start = pos.advance front ∧
      (others.getLast?.getD first).stop = pos.advance (front ++ part) ∧
        withoutLayout part = (first :: others).flatMap Token.lexeme := by
  obtain ⟨before, behind, rfl⟩ := hpart
  rw [List.append_assoc] at h
  obtain ⟨mid, rest, hbefore, h⟩ := h.append
  obtain ⟨last, back, hmiddle, -⟩ := h.append
  obtain ⟨front, rfl, rfl⟩ := hbefore.exists_front
  have hlast : last = (others.getLast?.getD first).stop := by
    rw [hmiddle.stop_eq, List.getLast?_cons]
    rfl
  rw [List.forall_mem_cons] at hplain
  cases hmiddle with
  | word htaken hothers =>
    obtain ⟨part, rfl, hend⟩ := hothers.exists_front
    refine ⟨front ++ (dropLayout rest).1, first.lexeme ++ part, back, ?_, ?_, ?_, ?_⟩
    · conv => lhs; rw [← htaken.text_eq]
      simp
    · rw [htaken.start_eq, Position.advance_append]
    · rw [← hlast, hend, htaken.stop_eq_advance]
      simp only [Position.advance_append]
    · rw [withoutLayout_append_of_isPlain hplain.1, hothers.withoutLayout_eq hplain.2,
        List.flatMap_cons]

end Reads

/-! ## Words of names -/

/-- The characters of a token with a fixed spelling are its spelling. -/
theorem Taken.lexeme_of_fixed {pos : Position} {text rest : List Char} {token : Token}
    (h : Taken pos text token rest) {spelling : String}
    (hfixed : token.terminal = .fixed spelling) :
    token.lexeme = spelling.toList := by
  have hlength := h.wordLength_eq
  rw [hfixed, Terminal.wordLength] at hlength
  split at hlength
  · next hprefix =>
    have hspelling := List.isPrefixOf_iff_prefix.mp hprefix
    have hpart := List.prefix_of_prefix_length_le hspelling (List.prefix_append token.lexeme rest)
      hlength.le
    exact (hpart.eq_of_length hlength).symm
  · exact absurd (List.length_eq_zero_iff.mp hlength.symm) h.lexeme_ne_nil

/-- The characters of a name token are those of a name. -/
theorem Taken.isName {pos : Position} {text rest : List Char} {token : Token}
    (h : Taken pos text token rest) (hname : token.terminal = .name) :
    isName token.lexeme = true := by
  have hlength := h.wordLength_eq
  obtain ⟨c, cs, hcons⟩ := List.exists_cons_of_ne_nil h.lexeme_ne_nil
  rw [hname, hcons, Terminal.wordLength, List.cons_append, nameLength, List.length_cons] at hlength
  rw [hcons, Source.isName, Bool.and_eq_true, List.all_eq_true]
  split at hlength
  · next hstart =>
    refine ⟨hstart, fun d hd => ?_⟩
    -- as many characters are taken as the token has, so these are the ones
    have hpart := List.prefix_of_prefix_length_le (List.takeWhile_prefix isNamePart)
      (List.prefix_append cs rest) (by omega)
    rw [← hpart.eq_of_length (by omega)] at hd
    exact List.mem_takeWhile_imp hd
  · omega

/-- A token that is read is taken at some place of the text. -/
theorem Reads.exists_taken {pos stop : Position} {text left : List Char} {tokens : List Token}
    (h : Reads pos text tokens stop left) {token : Token} (hmem : token ∈ tokens) :
    ∃ front behind rest, text = front ++ behind ∧ Taken (pos.advance front) behind token rest := by
  induction h with
  | stop => cases hmem
  | @word pos _ text rest _ first _ htaken _ ih =>
    rcases List.mem_cons.mp hmem with rfl | hmem
    · exact ⟨[], text, rest, rfl, htaken⟩
    · obtain ⟨front, behind, rest, rfl, htoken⟩ := ih hmem
      refine ⟨(dropLayout text).1 ++ first.lexeme ++ front, behind, rest, ?_, ?_⟩
      · rw [List.append_assoc, htaken.text_eq]
      · rwa [Position.advance_append, ← htaken.stop_eq_advance]

/-- What starts a name stands in names. -/
theorem isNamePart_of_isNameStart {c : Char} (h : isNameStart c = true) : isNamePart c = true := by
  rw [isNameStart, Bool.or_eq_true] at h
  rw [isNamePart, Char.isAlphanum, Bool.or_eq_true, Bool.or_eq_true]
  exact h.imp_left .inl

/-- The characters of a name stand in names. -/
theorem isNamePart_of_isName {lexeme : List Char} (h : isName lexeme = true) :
    ∀ c ∈ lexeme, isNamePart c = true := by
  cases lexeme with
  | nil => simp
  | cons c cs =>
    rw [Source.isName, Bool.and_eq_true, List.all_eq_true] at h
    exact List.forall_mem_cons.mpr ⟨isNamePart_of_isNameStart h.1, h.2⟩

/-- No character of a name starts layout, and none is a line feed. -/
theorem isPlain_of_isName {lexeme : List Char} (h : isName lexeme = true) :
    IsPlain lexeme ∧ '\n' ∉ lexeme := by
  have hall := isNamePart_of_isName h
  refine ⟨?_, fun hmem => absurd (hall _ hmem) (by decide)⟩
  intro c hc rest hstarts
  obtain ⟨d, more, heq, hapart, -⟩ := hstarts.startsApart
  obtain ⟨rfl, -⟩ := List.cons.inj heq
  have hpart := hall c hc
  rw [hapart] at hpart
  cases hpart

/-- A dot starts no layout. -/
theorem isPlain_dot : IsPlain ['.'] := by
  intro c hc rest hstarts
  obtain rfl := List.mem_singleton.mp hc
  obtain ⟨d, more, heq, hd⟩ := hstarts
  obtain ⟨rfl, -⟩ := List.cons.inj heq
  revert hd
  decide

/-- The dots and segments behind the first segment of a dotted name. -/
theorem yields_dottedTail {us : List Token} {tail : List Token}
    (h : Phrase.Yields (many (skipThen (mark ".") Phrase.name)) us tail) :
    us.getLast? = tail.getLast? ∧ (∀ t ∈ us, t.terminal = .fixed "." ∨ t.terminal = .name) ∧
      ((∀ t ∈ us, t.terminal = .fixed "." → t.lexeme = ['.']) →
        us.flatMap Token.lexeme = tail.flatMap fun t => '.' :: t.lexeme) := by
  induction tail generalizing us with
  | nil =>
    rw [yields_many_nil_iff.mp h]
    simp
  | cons segment tail ih =>
    obtain ⟨first, rest, rfl, hone, hrest⟩ := yields_many_cons_iff.mp h
    obtain ⟨ab, hab, rfl⟩ := yields_via_iff.mp hone
    obtain ⟨dots, names, rfl, hfirst, hsecond⟩ := yields_pair_iff.mp hab
    obtain ⟨rfl, hdot⟩ := yields_token_iff.mp hfirst
    obtain ⟨rfl, hname⟩ := yields_token_iff.mp hsecond
    obtain ⟨hlast, hkinds, htext⟩ := ih hrest
    refine ⟨?_, ?_, fun hdots => ?_⟩
    · rw [List.getLast?_append, hlast, List.getLast?_cons]
      cases tail.getLast? <;> rfl
    · rintro t ht
      rcases List.mem_append.mp ht with ht | ht
      · rcases List.mem_pair.mp ht with rfl | rfl
        · exact .inl hdot
        · exact .inr hname
      · exact hkinds t ht
    · rw [List.forall_mem_append] at hdots
      have hdotted := hdots.1 ab.1 List.mem_cons_self hdot
      rw [List.flatMap_append, htext hdots.2, List.flatMap_cons]
      simp [hdotted]

/-- The text of a list joined by a separator. -/
theorem intercalate_cons_eq {α : Type} (separator first : List α) (others : List (List α)) :
    separator.intercalate (first :: others) = first ++ others.flatMap (separator ++ ·) := by
  induction others generalizing first with
  | nil => simp
  | cons second others ih =>
    rw [List.intercalate_cons_cons, ih, List.flatMap_cons, List.append_assoc, List.append_assoc]

/-- The tokens of a dotted name. -/
theorem yields_dottedName {part : List Token} {dotted : DottedName}
    (h : Phrase.Yields dottedName part dotted) : ∃ others, part = dotted.head :: others ∧
      others.getLast? = dotted.tail.getLast? ∧
        (∀ t ∈ part, t.terminal = .fixed "." ∨ t.terminal = .name) ∧
          ((∀ t ∈ part, t.terminal = .fixed "." → t.lexeme = ['.']) →
            part.flatMap Token.lexeme = dotted.text.toList) := by
  obtain ⟨⟨head, tail⟩, hpair, rfl⟩ := yields_via_iff.mp h
  obtain ⟨first, us, rfl, hhead, htail⟩ := yields_pair_iff.mp hpair
  obtain ⟨rfl, hname⟩ := yields_token_iff.mp hhead
  obtain ⟨hlast, hkinds, htext⟩ := yields_dottedTail htail
  refine ⟨us, rfl, hlast, List.forall_mem_cons.mpr ⟨.inr hname, hkinds⟩, fun hdots => ?_⟩
  rw [List.singleton_append, List.flatMap_cons, htext (List.forall_mem_cons.mp hdots).2,
    DottedName.text, String.toList_intercalate, List.map_cons, List.map_cons, intercalate_cons_eq]
  simp [Token.text, List.flatMap_map, Function.comp_def]

end Source

/-! ## Documents -/

section Scanned

variable {text path : String} {tokens : List Token} {stop : Position} {left : List Char}
  (h : Reads {} text.toList tokens stop left)
include h

/-- A name that is read from the tokens of a text stands in it. -/
theorem Label.IsReadFrom.standsIn {label : Label} (hread : label.IsReadFrom path tokens) :
    label.StandsIn text path := by
  obtain ⟨t, hmem, hname, rfl⟩ := hread
  obtain ⟨front, behind, rest, htext, htaken⟩ := h.exists_taken hmem
  have htoList : t.text.toList = t.lexeme := String.toList_ofList
  have hplace : text.toList = (front ++ (dropLayout behind).1) ++ (t.text.toList ++ rest) := by
    rw [htoList, htext, List.append_assoc, ← List.append_assoc _ t.lexeme, htaken.text_eq]
  have hstart : t.start = Position.advance {} (front ++ (dropLayout behind).1) := by
    rw [htaken.start_eq, Position.advance_append]
  have hline : '\n' ∉ t.text.toList := htoList ▸ (isPlain_of_isName (htaken.isName hname)).2
  exact Label.standsIn_of_position hplace hline hstart (htoList ▸ htaken.stop_eq) rfl

/-- A reference that is read from the tokens of a text stands in it. -/
theorem TypeRef.IsReadFrom.standsIn {ref : TypeRef} (hread : ref.IsReadFrom path tokens) :
    ref.StandsIn text path := by
  obtain ⟨dotted, ⟨part, hpart, hyields⟩, href⟩ := hread
  obtain ⟨others, rfl, hlast, hkinds, htext⟩ := yields_dottedName hyields
  have hdots : ∀ t ∈ dotted.head :: others, t.terminal = .fixed "." → t.lexeme = ['.'] := by
    intro t ht hdot
    obtain ⟨_, _, _, -, htaken⟩ := h.exists_taken (hpart.subset ht)
    exact htaken.lexeme_of_fixed hdot
  have hplain : ∀ t ∈ dotted.head :: others, IsPlain t.lexeme := by
    intro t ht
    obtain ⟨_, _, _, -, htaken⟩ := h.exists_taken (hpart.subset ht)
    rcases hkinds t ht with hdot | hname
    · rw [hdots t ht hdot]
      exact isPlain_dot
    · exact (isPlain_of_isName (htaken.isName hname)).1
  obtain ⟨front, excerpt, back, htoList, hstart, hstop, hwithout⟩ := h.exists_excerpt hpart hplain
  have hspan : ref.span = dotted.span path ∧ ref.target = dotted.text := by
    rcases href with rfl | rfl
    · unfold DottedName.typeRef
      split <;> exact ⟨rfl, rfl⟩
    · exact ⟨rfl, rfl⟩
  refine ⟨front, excerpt, back, htoList, ?_, ?_⟩
  · rw [hwithout, htext hdots, hspan.2]
  · rw [hlast, Position.advance_eq] at hstop
    rw [Position.advance_eq] at hstart
    rw [hspan.1, DottedName.span, Token.spanTo, hstart, hstop]

end Scanned

/-- **Spans are exact.** In a document that is read from a text, every declared name stands in one
line of the text, between the columns of its span; and every reference stands in the text between
the ends of its span, apart from layout. -/
theorem spans_are_exact {text path : String} {digest : Option String} {document : Document}
    (h : Document.ofSource text path digest = .ok document) :
    (∀ label ∈ document.labels, label.StandsIn text path) ∧
      ∀ reference ∈ document.references, reference.ref.StandsIn text path := by
  obtain ⟨stop, left, hreads, -⟩ := (scans_scanFile path text).reads
  constructor
  · intro label hlabel
    obtain ⟨element, helement, hlabel⟩ := List.mem_flatMap.mp hlabel
    exact ((areReadFrom_of_ofSource h helement).labels label hlabel).standsIn hreads
  · intro reference hreference
    obtain ⟨element, helement, href⟩ := Document.mem_typeRefs_of_mem_references hreference
    exact ((areReadFrom_of_ofSource h helement).refs _ href).standsIn hreads

/-- A reference that goes over a comment and the end of a line. -/
def spreadText : String :=
  "package p\ntypeCollection T \x7b array A of q /* of */ .\n\tB \x7d"

/-- Its document. -/
def spreadDocument : Document :=
  let at_ (line column endLine endColumn : Int) : Span :=
    ⟨some "p.fidl", some line, some column, some endLine, some endColumn⟩
  { package := "p", sourcePath := "p.fidl", span := at_ 1 1 1 10,
    typeCollections := [{
      name := "T", span := at_ 2 16 2 17,
      types := [{
        name := "A", span := at_ 2 26 2 27,
        body := .array { derived := some "q.B", span := at_ 2 31 3 3 } }] }] }

/-- The names and the reference stand in the text. -/
theorem spans_spreadText :
    Document.ofSource spreadText "p.fidl" = .ok spreadDocument ∧
      spreadDocument.labels.map (·.name) = ["T", "A"] ∧
        (∀ label ∈ spreadDocument.labels, label.StandsIn spreadText "p.fidl") ∧
          ∀ reference ∈ spreadDocument.references,
            reference.ref.StandsIn spreadText "p.fidl" := by
  have hread : Document.ofSource spreadText "p.fidl" = .ok spreadDocument := by decide +kernel
  exact ⟨hread, by decide, spans_are_exact hread⟩

end FrancaLint
