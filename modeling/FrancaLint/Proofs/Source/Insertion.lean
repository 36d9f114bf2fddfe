import FrancaLint.Proofs.Source.Pieces
import FrancaLint.Proofs.Source.Reading
import FrancaLint.Proofs.Source.RoundTrip
import FrancaLint.Proofs.Source.Wording

/-! # Layout does not matter

Blanks, comments and annotations may be put in front of a text or behind any of its words: the same
words are read, and so is the same document, apart from the spans.

* `Position.eq_of_advance_eq`: a position belongs to one place of a text.
* `Scans.relocate` and `Scans.insert`: the course of a scan, in front of the same words at other
  places, and with layout put in.
* `Document.ofSource_insert`: the document of a text with layout put in. -/

namespace FrancaLint

open Source Phrase

namespace Source

/-! ## Positions in a text -/

namespace Position

/-- A text that stays in its line goes over as many columns as it has characters. -/
theorem column_advance (pos : Position) (text : List Char) :
    pos.line ≤ (pos.advance text).line ∧ ((pos.advance text).line = pos.line →
      (pos.advance text).column = pos.column + text.length) := by
  induction text generalizing pos with
  | nil => exact ⟨Nat.le_refl _, fun _ => rfl⟩
  | cons c rest ih =>
    obtain ⟨hline, hcolumn⟩ := ih (pos.next c)
    show pos.line ≤ ((pos.next c).advance rest).line ∧
      (((pos.next c).advance rest).line = pos.line →
        ((pos.next c).advance rest).column = pos.column + (rest.length + 1))
    unfold next at hline hcolumn ⊢
    by_cases hc : c = '\n'
    · rw [if_pos hc] at hline hcolumn ⊢
      simp only at hline
      exact ⟨by omega, fun hsame => absurd hsame (by omega)⟩
    · rw [if_neg hc] at hline hcolumn ⊢
      simp only at hline hcolumn
      refine ⟨hline, fun hsame => ?_⟩
      rw [hcolumn hsame]
      omega

/-- Only nothing leads back to the same position. -/
theorem eq_nil_of_advance_eq {pos : Position} {text : List Char} (h : pos.advance text = pos) :
    text = [] := by
  have hcolumn := (pos.column_advance text).2 (congrArg line h)
  rw [h] at hcolumn
  exact List.length_eq_zero_iff.mp (by omega)

/-- A position belongs to one place of a text. -/
theorem eq_of_advance_eq {pos : Position} {before back before' back' : List Char}
    (htext : before ++ back = before' ++ back') (h : pos.advance before = pos.advance before') :
    before = before' ∧ back = back' := by
  rcases List.append_eq_append_iff.mp htext with ⟨more, rfl, rfl⟩ | ⟨more, rfl, rfl⟩
  · rw [advance_append] at h
    obtain rfl := eq_nil_of_advance_eq h.symm
    simp
  · rw [advance_append] at h
    obtain rfl := eq_nil_of_advance_eq h
    simp

end Position

/-! ## Words with layout behind them -/

section Taken

variable {pos : Position} {text front back back' : List Char} {token : Token}
  {allowed : List Terminal}

/-- A token that is taken is taken as well if something follows at some place behind it that starts
apart from words. -/
theorem Taken.append_congr (h : Taken pos text token (front ++ back))
    (hallowed : allowed ⊆ vocabulary)
    (hlongest : longest? allowed (token.lexeme ++ (front ++ back)) =
      some (token.terminal, token.lexeme.length))
    (hback : StartsApart back') :
    longest? allowed (token.lexeme ++ (front ++ back')) =
        some (token.terminal, token.lexeme.length) ∧
      Taken pos ((dropLayout text).1 ++ (token.lexeme ++ (front ++ back'))) token
        (front ++ back') := by
  have hlongest' : longest? allowed (token.lexeme ++ (front ++ back')) =
      some (token.terminal, token.lexeme.length) := by
    rw [← List.append_assoc] at hlongest ⊢
    refine longest?_append_congr hallowed hlongest ?_ hback
    rw [List.length_append]
    omega
  obtain ⟨hmem, hlength, hpos, -⟩ := longest?_spec hlongest'
  obtain ⟨c, cs, hcons⟩ := List.exists_cons_of_ne_nil h.lexeme_ne_nil
  -- the token starts no layout, so that the layout in front of it is found again
  have hbody : ¬ StartsLayout (token.lexeme ++ (front ++ back')) := by
    rw [← hlength, hcons] at hpos
    rw [hcons]
    exact not_startsLayout_of_isHead (isHead_of_mem_vocabulary (hallowed hmem) hpos) _
  have hhead : (token.lexeme ++ (front ++ back')).head? = (dropLayout text).2.head? := by
    rw [h.body_eq, hcons]
    rfl
  have hlayout := dropLayout_congr (Prod.eta (dropLayout text)).symm hhead hbody
  refine ⟨hlongest', ?_, ?_, h.stop_eq, h.lexeme_ne_nil, hlength⟩
  · rw [hlayout]
  · rw [hlayout]
    exact h.start_eq

end Taken

/-! ## Scans with layout put in -/

section Scans

variable {α : Type} {phrase : Phrase α} (h : Readable phrase) {tokens : List Token} {a : α}
include h

/-- After tokens with the same terminals, the same terminals are looked for. -/
theorem Readable.mem_allowedAfter_congr {ts us : List Token}
    (hmap : us.map Token.terminal = ts.map Token.terminal) (terminal : Terminal) :
    terminal ∈ allowedAfter (phrase.after ts).starts ↔
      terminal ∈ allowedAfter (phrase.after us).starts := by
  have hstarts : ∀ t, t ∈ (phrase.after ts).starts ↔ t ∈ (phrase.after us).starts := by
    intro t
    rw [mem_starts_after_iff h.isProductive, mem_starts_after_iff h.isProductive, hmap]
  have hdot : (phrase.after ts).starts.contains (.fixed ".") =
      (phrase.after us).starts.contains (.fixed ".") := by
    rw [Bool.eq_iff_iff, List.contains_iff_mem, List.contains_iff_mem, hstarts]
  unfold allowedAfter
  rw [hdot]
  split
  · rfl
  · exact hstarts terminal

/-- A scan takes the same words from the same text behind other layout, whatever the places of the
tokens before. -/
theorem Scans.relocate {ts us : List Token} {last last' pos pos' : Position}
    {text text' : List Char} (hscan : Scans (phrase.after ts) last pos text tokens (.accepted a))
    (hmap : us.map Token.terminal = ts.map Token.terminal)
    (hbody : (dropLayout text').2 = (dropLayout text).2) :
    ∃ tokens' b, Scans (phrase.after us) last' pos' text' tokens' (.accepted b) ∧
      tokens'.map Token.word = tokens.map Token.word := by
  -- on the course of the scan; `ts` and `us` are what has been read of both texts
  generalize hphrase : phrase.after ts = current at hscan
  generalize houtcome : Outcome.accepted a = outcome at hscan
  induction hscan generalizing ts us last' pos' text' with
  | ends hends =>
    subst houtcome hphrase
    cases hends with
    | accepted hend hvalue =>
      have hsome : (phrase.after us).emptyValue?.isSome = true := by
        rw [isSome_emptyValue?_iff_nil_mem, language_after_congr phrase hmap,
          ← isSome_emptyValue?_iff_nil_mem, hvalue]
        rfl
      obtain ⟨b, hb⟩ := Option.isSome_iff_exists.mp hsome
      exact ⟨[], b, .ends (.accepted (hbody.trans hend) hb), rfl⟩
  | @word current last pos text rest token tokens outcome htaken hlongest hnext _ ih =>
    subst hphrase
    set start := pos'.advance (dropLayout text').1
    set moved : Token := ⟨token.terminal, token.lexeme, start, start.advance token.lexeme⟩
    have hmap' : (us ++ [moved]).map Token.terminal = (ts ++ [token]).map Token.terminal := by
      rw [List.map_append, List.map_append, hmap]
      rfl
    have htaken' : Taken pos' text' moved rest :=
      ⟨hbody.trans htaken.body_eq, rfl, rfl, htaken.lexeme_ne_nil, htaken.wordLength_eq⟩
    have hlongest' : longest? (allowedAfter (phrase.after us).starts) (moved.lexeme ++ rest) =
        some (moved.terminal, moved.lexeme.length) :=
      longest?_congr (h.mem_allowedAfter_congr hmap) (fun _ _ => rfl) hlongest
    have hnext' : ((phrase.after us).residual moved).isNever = false := by
      rw [← Bool.not_eq_true] at hnext ⊢
      rw [isNever_residual_after_iff h.isProductive] at hnext ⊢
      rwa [hmap]
    obtain ⟨tokens', b, hrest, hwords⟩ := ih hmap' rfl (after_concat _ _ _) houtcome
    rw [after_concat] at hrest
    refine ⟨moved :: tokens', b, .word htaken' hlongest' hnext' hrest, ?_⟩
    exact congrArg (token.word :: ·) hwords

omit h in
/-- The place behind a token of a scan is behind the first token, or behind one of the rest. -/
theorem Scans.place_of_stop {current : Phrase α} {last pos : Position} {outcome : Outcome α}
    {first token : Token} {text rest before back : List Char} (htaken : Taken pos text first rest)
    (hrest : Scans current last first.stop rest tokens outcome) (hmem : token ∈ first :: tokens)
    (htext : before ++ back = text) (hstop : token.stop = pos.advance before) :
    ∃ front, before = (dropLayout text).1 ++ first.lexeme ++ front ∧ rest = front ++ back ∧
      (front = [] ∨ token ∈ tokens ∧ token.stop = first.stop.advance front) := by
  have hwhole := htext.trans htaken.text_eq.symm
  rcases List.mem_cons.mp hmem with rfl | hmem
  · rw [htaken.stop_eq_advance] at hstop
    obtain ⟨rfl, rfl⟩ := Position.eq_of_advance_eq hwhole hstop.symm
    exact ⟨[], (List.append_nil _).symm, rfl, Or.inl rfl⟩
  · obtain ⟨front, behind, rfl, htoken⟩ := hrest.exists_stop_of_mem hmem
    rw [htoken, htaken.stop_eq_advance, ← Position.advance_append] at hstop
    rw [← List.append_assoc] at hwhole
    obtain ⟨rfl, rfl⟩ := Position.eq_of_advance_eq hwhole hstop.symm
    exact ⟨front, rfl, rfl, Or.inr ⟨hmem, htoken⟩⟩

/-- With layout put in behind one of its tokens, a scan takes the same words. -/
theorem Scans.insert {gap before back : List Char} (hgap : IsGap gap) {ts : List Token}
    {last pos : Position}
    (hscan : Scans (phrase.after ts) last pos (before ++ back) tokens (.accepted a)) {token : Token}
    (hmem : token ∈ tokens) (hstop : token.stop = pos.advance before) :
    ∃ tokens' b, Scans (phrase.after ts) last pos (before ++ (gap ++ back)) tokens' (.accepted b) ∧
      tokens'.map Token.word = tokens.map Token.word := by
  -- on the course of the scan up to that token; in front of it nothing changes
  generalize htext : before ++ back = text at hscan
  generalize hphrase : phrase.after ts = current at hscan
  generalize houtcome : Outcome.accepted a = outcome at hscan
  induction hscan generalizing ts before with
  | ends => cases hmem
  | @word current last pos text rest first tokens outcome htaken hlongest hnext hrest ih =>
    subst hphrase houtcome
    rw [← after_concat] at hrest ih
    obtain ⟨front, rfl, rfl, hplace⟩ := hrest.place_of_stop htaken hmem htext hstop
    obtain ⟨tokens', b, hnew, hwords⟩ : ∃ tokens' b, Scans (phrase.after (ts ++ [first]))
        first.start first.stop (front ++ (gap ++ back)) tokens' (.accepted b) ∧
          tokens'.map Token.word = tokens.map Token.word := by
      rcases hplace with rfl | ⟨hmem, htoken⟩
      · -- behind the gap the same text is left as before, at another position
        have hbody : (dropLayout (gap ++ back)).2 = (dropLayout back).2 := by
          rw [hgap.dropLayout_append]
        exact hrest.relocate h rfl hbody
      · exact ih hmem htoken rfl rfl rfl
    obtain ⟨hlongest', htaken'⟩ := htaken.append_congr (h.allowedAfter_subset ts) hlongest
      (hgap.startsLayout_append back).startsApart
    rw [after_concat] at hnew
    refine ⟨first :: tokens', b, ?_, congrArg (first.word :: ·) hwords⟩
    rw [List.append_assoc, List.append_assoc]
    exact .word htaken' hlongest' hnext hnew

end Scans

/-! ## Documents -/

/-- A text with layout in front, or behind one of its words, is accepted with the words that it has
without. -/
theorem scanFile_insert {path before gap back : String} {tokens : List Token} {a : Draft}
    (hscan : scanFile path (before ++ back) = (tokens, .accepted a))
    (hplace : before = "" ∨ ∃ token ∈ tokens, token.stop = Position.advance {} before.toList)
    (hgap : IsGap gap.toList) : ∃ tokens' b,
      scanFile path (before ++ gap ++ back) = (tokens', .accepted b) ∧
        tokens'.map Token.word = tokens.map Token.word := by
  have hcourse := scans_scanFile path (before ++ back)
  rw [hscan, String.toList_append] at hcourse
  have hreadable := readable_draft path
  obtain ⟨tokens', b, hnew, hwords⟩ : ∃ tokens' b, Scans ((draft path).after []) {} {}
      (before.toList ++ (gap.toList ++ back.toList)) tokens' (.accepted b) ∧
        tokens'.map Token.word = tokens.map Token.word := by
    rcases hplace with rfl | ⟨token, hmem, hstop⟩
    · refine hcourse.relocate hreadable rfl ?_
      show (dropLayout (gap.toList ++ back.toList)).2 = (dropLayout back.toList).2
      rw [hgap.dropLayout_append]
    · exact hcourse.insert hreadable hgap hmem hstop
  refine ⟨tokens', b, ?_, hwords⟩
  rw [scanFile, String.toList_append, String.toList_append, List.append_assoc]
  exact hnew.scan_eq

/-- A definition is read as an element if it is one, apart from places. -/
theorem Definition.reading_eq_some_iff {definition : Definition} {element : Element} :
    definition.reading = some element ↔
      definition.element.map Element.unplaced = .ok element := by
  unfold Definition.reading
  cases definition.element <;> simp [Except.map, Except.toOption]

/-- Definitions that are turned into elements are read as these. -/
theorem map_reading_of_mapM {definitions : List Definition} {elements : List Element}
    (h : definitions.mapM Definition.element = .ok elements) :
    definitions.map Definition.reading = elements.map fun element => some element.unplaced := by
  induction definitions generalizing elements with
  | nil =>
    obtain rfl : [] = elements := Except.ok.inj h
    rfl
  | cons definition definitions ih =>
    rw [List.mapM_cons] at h
    cases hfirst : definition.element with
    | error fault =>
      rw [hfirst] at h
      cases h
    | ok first =>
      cases hothers : definitions.mapM Definition.element with
      | error fault =>
        rw [hfirst, hothers] at h
        cases h
      | ok others =>
        rw [hfirst, hothers] at h
        obtain rfl : first :: others = elements := Except.ok.inj h
        have hreading : definition.reading = some first.unplaced := by
          rw [Definition.reading_eq_some_iff, hfirst]
          rfl
        rw [List.map_cons, List.map_cons, hreading, ih hothers]

/-- Definitions that are read as elements are turned into these, apart from places. -/
theorem map_element_of_map_reading {definitions : List Definition} {elements : List Element}
    (h : definitions.map Definition.reading = elements.map fun element => some element.unplaced) :
    (definitions.map fun definition => definition.element.map Element.unplaced) =
      elements.map fun element => .ok element.unplaced := by
  induction definitions generalizing elements with
  | nil =>
    rw [List.map_nil, eq_comm, List.map_eq_nil_iff] at h
    rw [h]
    rfl
  | cons definition definitions ih =>
    rw [List.map_cons, eq_comm] at h
    obtain ⟨element, elements, rfl, helement, helements⟩ := List.map_eq_cons_iff.mp h
    rw [List.map_cons, List.map_cons, ih helements.symm,
      Definition.reading_eq_some_iff.mp helement.symm]

/-- The document of a draft depends on its places in nothing but the spans. -/
theorem Draft.document_congr {read written : Draft} {path : String} {digest : Option String}
    {document : Document} (h : written.document path digest = .ok document)
    (hpackage : read.package = written.package)
    (himports : read.imports.map Import.unplaced = written.imports.map Import.unplaced)
    (hdefinitions : read.definitions.map Definition.reading =
      written.definitions.map Definition.reading) :
    (read.document path digest).map Document.unplaced = .ok document.unplaced := by
  obtain ⟨elements, helements, hanonymous, -⟩ := written.exists_elements_of_document h
  rw [Draft.document_eq_ok path digest helements hanonymous] at h
  obtain rfl := Except.ok.inj h
  rw [map_reading_of_mapM helements] at hdefinitions
  obtain ⟨elements', helements', hunplaced⟩ :=
    exists_elements (map_element_of_map_reading hdefinitions)
  have hcollections : (collectionsOf elements').map TypeCollection.unplaced =
      (collectionsOf elements).map TypeCollection.unplaced := by
    rw [map_unplaced_collectionsOf, hunplaced, ← map_unplaced_collectionsOf]
  have hinterfaces : (interfacesOf elements').map Interface.unplaced =
      (interfacesOf elements).map Interface.unplaced := by
    rw [map_unplaced_interfacesOf, hunplaced, ← map_unplaced_interfacesOf]
  rw [← length_filter_isEmpty_of_unplaced hcollections] at hanonymous
  rw [Draft.document_eq_ok path digest helements' hanonymous]
  show Except.ok _ = Except.ok _
  simp only [Document.unplaced, hpackage, himports, hcollections, hinterfaces]

end Source

/-- Layout does not matter: with layout put in at its start or behind one of its words, a text is
read as the same document, apart from the spans. -/
theorem Document.ofSource_insert {before gap back path : String} {digest : Option String}
    {document : Document} (hread : Document.ofSource (before ++ back) path digest = .ok document)
    (hplace : before = "" ∨ ∃ token ∈ (scanFile path (before ++ back)).1,
      token.stop = Position.advance {} before.toList)
    (hgap : IsGap gap.toList) :
    (Document.ofSource (before ++ gap ++ back) path digest).map Document.unplaced =
      .ok document.unplaced := by
  unfold Document.ofSource at hread
  cases houtcome : (scanFile path (before ++ back)).2 with
  | unexpected word at_ =>
    rw [houtcome] at hread
    cases hread
  | unfinished at_ =>
    rw [houtcome] at hread
    cases hread
  | accepted written =>
    rw [houtcome] at hread
    have hscan : scanFile path (before ++ back) =
        ((scanFile path (before ++ back)).1, .accepted written) :=
      Prod.ext rfl houtcome
    obtain ⟨tokens', read, hscan', hwords⟩ := scanFile_insert hscan hplace hgap
    -- the words settle what is read, and one token of lookahead decides how
    obtain ⟨other, hother, hpackage, himports, hdefinitions⟩ :=
      settles_draft path (yields_of_scanFile hscan) hwords
    obtain rfl : other = read :=
      eq_of_yields (readable_draft path).isDeterministic hother (yields_of_scanFile hscan')
    rw [Document.ofSource, hscan']
    exact Draft.document_congr hread hpackage himports hdefinitions

/-- A comment between a keyword and the name that is glued to it. -/
theorem ofSource_insert_glued :
    (Document.ofSource ("package" ++ "/* of */" ++ "lamps") "lamps.fidl").map Document.unplaced =
      .ok { package := "lamps", sourcePath := "lamps.fidl" } := by
  have hread : Document.ofSource ("package" ++ "lamps") "lamps.fidl" = .ok {
      package := "lamps", sourcePath := "lamps.fidl",
      span := ⟨some "lamps.fidl", some 1, some 1, some 1, some 13⟩ } := by
    decide +kernel
  have hplace : ∃ token ∈ (scanFile "lamps.fidl" ("package" ++ "lamps")).1,
      token.stop = Position.advance {} "package".toList := by
    decide +kernel
  have hgap : IsGap "/* of */".toList := by
    have hcomment : ¬ ['*', '/'] <:+: " of ".toList := by decide
    exact .block hcomment
  exact Document.ofSource_insert hread (Or.inr hplace) hgap

end FrancaLint
