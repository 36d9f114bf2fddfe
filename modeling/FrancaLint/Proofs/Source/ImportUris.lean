import FrancaLint.Proofs.Source.Insertion
import FrancaLint.Proofs.Source.Occurrences
import FrancaLint.Proofs.Source.QuotedWords

/-! # URIs of imports as they are written

The URI of an import is what its quoted word is read as. Where the quoted form of a text is written
in place of that word, it is taken as one word, and the text is the URI; nothing else changes.

* `Token.quoting` and `Scans.exists_requote`: a scan goes on as before behind another quoted word.
* `yields_importClause` and `yields_draft_set`: the sentences with another word in one import.
* `Document.withUri` and `Document.ofSource_withQuoted`: the document of a text with another URI in
  one import, whose word stands where `Import.IsWrittenAs` says.
* `strings_are_read_from_left_to_right`: with what reading any quoted word gives. -/

namespace FrancaLint

open Source Phrase

namespace Source

/-! ## Scans with another quoted word -/

/-- The token with the quoted form of a text in place of its characters. -/
def Token.quoting (token : Token) (text : List Char) : Token :=
  ⟨.string, quoted text, token.start, token.start.advance (quoted text)⟩

/-- Behind the same layout, the token is taken with the quoted form of a text. -/
theorem Taken.quoting {pos : Position} {text rest : List Char} {token : Token}
    (h : Taken pos text token rest) (hterminal : token.terminal = .string) {inner : List Char}
    (hline : '\n' ∉ inner) :
    Taken pos ((dropLayout text).1 ++ (quoted inner ++ rest)) (token.quoting inner) rest := by
  obtain ⟨c, cs, hcons⟩ := List.exists_cons_of_ne_nil h.lexeme_ne_nil
  have hpos : 0 < token.terminal.wordLength (c :: (cs ++ rest)) := by
    rw [← List.cons_append, ← hcons, h.wordLength_eq, hcons]
    exact Nat.succ_pos _
  rw [hterminal] at hpos
  obtain rfl : c = '"' := isHead_of_wordLength_pos rfl hpos
  have hhead : (quoted inner ++ rest).head? = (dropLayout text).2.head? := by
    rw [h.body_eq, hcons]
    rfl
  have hbody : ¬ StartsLayout (quoted inner ++ rest) :=
    not_startsLayout_of_isHead (show IsHead .string '"' from rfl) _
  have hlayout := dropLayout_congr (Prod.eta (dropLayout text)).symm hhead hbody
  refine ⟨?_, ?_, rfl, List.cons_ne_nil _ _, stringLength_quoted_append hline rest⟩
  · rw [hlayout]
    rfl
  · rw [hlayout]
    exact h.start_eq

section Scans

variable {α : Type} {phrase : Phrase α} (h : Readable phrase) {a : α}
include h

/-- The quoted form of a text is taken where a quoted word is, and the scan goes on as before. -/
theorem Scans.requote {ts tokens : List Token} {last pos : Position} {text rest : List Char}
    {token : Token} (htaken : Taken pos text token rest) (hterminal : token.terminal = .string)
    (hlongest : longest? (allowedAfter (phrase.after ts).starts) (token.lexeme ++ rest) =
      some (token.terminal, token.lexeme.length))
    (hnext : ((phrase.after ts).residual token).isNever = false)
    (hrest : Scans ((phrase.after ts).residual token) token.start token.stop rest tokens
      (.accepted a)) {inner : List Char} (hline : '\n' ∉ inner) :
    ∃ tokens' b, Scans (phrase.after ts) last pos ((dropLayout text).1 ++ (quoted inner ++ rest))
      (token.quoting inner :: tokens') (.accepted b) ∧
        tokens'.map Token.word = tokens.map Token.word := by
  have hterminals : (ts ++ [token.quoting inner]).map Token.terminal =
      (ts ++ [token]).map Token.terminal := by
    rw [List.map_append, List.map_append, List.map_singleton, List.map_singleton, hterminal]
    rfl
  rw [← after_concat] at hrest
  obtain ⟨tokens', b, hscan, hwords⟩ := hrest.relocate h hterminals rfl
  rw [after_concat] at hscan
  obtain ⟨hmem, -, -, -⟩ := longest?_spec hlongest
  rw [hterminal] at hmem
  refine ⟨tokens', b, .word (htaken.quoting hterminal hline) ?_ ?_ hscan, hwords⟩
  · exact longest?_quoted_append (h.allowedAfter_subset ts) hmem hline rest
  · rw [← Bool.not_eq_true] at hnext ⊢
    rw [isNever_residual_after_iff h.isProductive] at hnext ⊢
    rwa [hterminal] at hnext

/-- A quoted word of a scan stands at its place in the text, and with another one there the same
words are taken around it. -/
theorem Scans.exists_requote {ts us vs : List Token} {last pos : Position} {text : List Char}
    {token : Token} (hterminal : token.terminal = .string)
    (hscan : Scans (phrase.after ts) last pos text (us ++ token :: vs) (.accepted a)) :
    ∃ before back, text = before ++ (token.lexeme ++ back) ∧ token.start = pos.advance before ∧
      Terminal.string.wordLength (token.lexeme ++ back) = token.lexeme.length ∧
        ∀ inner, '\n' ∉ inner → ∃ vs' b, Scans (phrase.after ts) last pos
          (before ++ (quoted inner ++ back)) (us ++ token.quoting inner :: vs') (.accepted b) ∧
            vs'.map Token.word = vs.map Token.word := by
  induction us generalizing ts last pos text with
  | nil =>
    cases hscan with
    | @word _ _ _ _ rest _ _ _ htaken hlongest hnext hrest =>
      refine ⟨(dropLayout text).1, rest, ?_, htaken.start_eq, ?_, fun inner hline => ?_⟩
      · rw [← List.append_assoc, htaken.text_eq]
      · rw [← hterminal]
        exact htaken.wordLength_eq
      · exact Scans.requote h htaken hterminal hlongest hnext hrest hline
  | cons first us ih =>
    cases hscan with
    | word htaken hlongest hnext hrest =>
      rw [← after_concat] at hrest
      obtain ⟨before, back, rfl, hstart, hword, hrequote⟩ := ih hrest
      refine ⟨(dropLayout text).1 ++ first.lexeme ++ before, back, ?_, ?_, hword,
        fun inner hline => ?_⟩
      · rw [List.append_assoc, htaken.text_eq]
      · rw [hstart, htaken.stop_eq_advance, ← Position.advance_append]
      · obtain ⟨vs', b, hnew, hwords⟩ := hrequote inner hline
        have hquote : StartsApart (quoted inner ++ back) := startsApart_cons (by decide) _
        obtain ⟨hlongest', htaken'⟩ :=
          htaken.append_congr (h.allowedAfter_subset ts) hlongest hquote
        rw [after_concat] at hnew
        refine ⟨vs', b, ?_, hwords⟩
        rw [List.append_assoc, List.append_assoc]
        exact .word htaken' hlongest' hnext hnew

end Scans

/-! ## Sentences with another quoted word -/

variable {α : Type}

/-- One item of a repetition may be read from other tokens. -/
theorem yields_many_set {item : Phrase α} {ts : List Token} {as : List α}
    (h : Phrase.Yields (many item) ts as) {k : Nat} {a : α} (ha : as[k]? = some a) :
    ∃ before part behind, ts = before ++ (part ++ behind) ∧ Phrase.Yields item part a ∧
      ∀ part' a', Phrase.Yields item part' a' →
        Phrase.Yields (many item) (before ++ (part' ++ behind)) (as.set k a') := by
  induction as generalizing ts k with
  | nil => cases ha
  | cons first as ih =>
    obtain ⟨us, vs, rfl, hone, hrest⟩ := yields_many_cons_iff.mp h
    cases k with
    | zero =>
      obtain rfl := Option.some.inj ha
      refine ⟨[], us, vs, rfl, hone, fun part' a' hpart' => ?_⟩
      rw [List.nil_append, List.set_cons_zero]
      exact .more hpart' hrest
    | succ k =>
      obtain ⟨before, part, behind, rfl, hpart, hset⟩ := ih hrest ha
      refine ⟨us ++ before, part, behind, (List.append_assoc ..).symm, hpart, ?_⟩
      intro part' a' hpart'
      rw [List.append_assoc]
      exact .more hone (hset part' a' hpart')

variable {file : String}

/-- The last token of an import is its quoted word, and may be another one. -/
theorem yields_importClause {part : List Token} {i : Import}
    (h : Phrase.Yields (importClause file) part i) : ∃ init token, part = init ++ [token] ∧
      token.terminal = .string ∧ i.uri = String.ofList (quotedText token.lexeme) ∧
        i.span.endLine = some (token.stop.line : Int) ∧
          i.span.endColumn = some (token.stop.column : Int) ∧
            ∀ other : Token, other.terminal = .string → ∃ span,
              Phrase.Yields (importClause file) (init ++ [other])
                { uri := String.ofList (quotedText other.lexeme), ns := i.ns, span := span } := by
  obtain ⟨⟨first, ns, uri⟩, hparts, rfl⟩ := yields_via_iff.mp h
  obtain ⟨us, vs, rfl, hfirst, hsides⟩ := yields_pair_iff.mp hparts
  rcases yields_either_iff.mp hsides with hmodel | hfrom
  · obtain ⟨marks, uris, rfl, hmark, huri⟩ := yields_pair_iff.mp hmodel
    obtain ⟨rfl, hterminal⟩ := yields_token_iff.mp huri
    refine ⟨us ++ marks, uri, (List.append_assoc ..).symm, hterminal, rfl, rfl, rfl, ?_⟩
    intro other hother
    rw [List.append_assoc]
    exact ⟨_, .via (.pair hfirst (.left (.pair hmark (.token other hother))))⟩
  · obtain ⟨names, rest, rfl, hnames, hrest⟩ := yields_pair_iff.mp hfrom
    obtain ⟨both, hboth, rfl⟩ := yields_via_iff.mp hrest
    obtain ⟨marks, uris, rfl, hmark, huri⟩ := yields_pair_iff.mp hboth
    obtain ⟨rfl, hterminal⟩ := yields_token_iff.mp huri
    refine ⟨us ++ (names ++ marks), both.2, ?_, hterminal, rfl, rfl, rfl, ?_⟩
    · simp only [List.append_assoc]
    · intro other hother
      simp only [List.append_assoc]
      exact ⟨_, .via (.pair hfirst
        (.right (.pair hnames (.via (.pair hmark (.token other hother))))))⟩

/-- The draft with another import in place of one. -/
def Draft.withImport (draft : Draft) (k : Nat) (i : Import) : Draft :=
  { draft with imports := draft.imports.set k i }

/-- The quoted word of an import stands among the tokens of a file, and may be another one. -/
theorem yields_draft_set {ts : List Token} {a : Draft} (h : Phrase.Yields (draft file) ts a)
    {k : Nat} {i : Import} (hi : a.imports[k]? = some i) : ∃ us token vs, ts = us ++ token :: vs ∧
      token.terminal = .string ∧ i.uri = String.ofList (quotedText token.lexeme) ∧
        i.span.endLine = some (token.stop.line : Int) ∧
          i.span.endColumn = some (token.stop.column : Int) ∧
            ∀ other : Token, other.terminal = .string → ∃ span,
              Phrase.Yields (draft file) (us ++ other :: vs) (a.withImport k
                { uri := String.ofList (quotedText other.lexeme), ns := i.ns, span := span }) := by
  obtain ⟨⟨package, imports, definitions⟩, hparts, rfl⟩ := yields_via_iff.mp h
  obtain ⟨front, back, rfl, hpackage, hrest⟩ := yields_pair_iff.mp hparts
  obtain ⟨middle, last, rfl, himports, hdefinitions⟩ := yields_pair_iff.mp hrest
  obtain ⟨before, part, behind, rfl, hpart, hset⟩ := yields_many_set himports hi
  obtain ⟨init, token, rfl, hterminal, huri, hline, hcolumn, hother⟩ := yields_importClause hpart
  refine ⟨front ++ (before ++ init), token, behind ++ last, ?_, hterminal, huri, hline, hcolumn, ?_⟩
  · simp
  · intro other hterminal'
    obtain ⟨span, hyields⟩ := hother other hterminal'
    have hwhole : Phrase.Yields (draft file) _ _ :=
      .via (.pair hpackage (.pair (hset _ _ hyields) hdefinitions))
    simp only [List.append_assoc, List.singleton_append] at hwhole ⊢
    exact ⟨span, hwhole⟩

/-! ## Documents with another URI -/

/-- A draft of a document is one of a document with another import in place of one, too. -/
theorem Draft.document_withImport {a : Draft} {path : String} {digest : Option String}
    {document : Document} (h : a.document path digest = .ok document) (k : Nat) (i : Import) :
    document.imports = a.imports ∧ (a.withImport k i).document path digest =
      .ok { document with imports := document.imports.set k i } := by
  obtain ⟨elements, helements, hanonymous, -⟩ := a.exists_elements_of_document h
  rw [Draft.document_eq_ok path digest helements hanonymous] at h
  obtain rfl := Except.ok.inj h
  have hdefinitions : (a.withImport k i).definitions.mapM Definition.element = .ok elements :=
    helements
  exact ⟨rfl, Draft.document_eq_ok path digest hdefinitions hanonymous⟩

end Source

/-- The document with another URI in one of its imports. -/
def Document.withUri (document : Document) (k : Nat) (uri : String) : Document :=
  { document with imports := document.imports.modify k ({ · with uri := uri }) }

/-- With another URI in an import, a document is as with another import there, apart from places. -/
theorem Document.unplaced_withUri {document : Document} {k : Nat} {imported : Import}
    (h : document.imports[k]? = some imported) (uri : String) (span : Span) :
    (document.withUri k uri).unplaced =
      { document with
        imports := document.imports.set k ⟨uri, imported.ns, span⟩ }.unplaced := by
  have himports : document.imports.modify k ({ · with uri := uri }) =
      document.imports.set k { imported with uri := uri } := by
    rw [List.modify_eq_set_getElem?, h]
    rfl
  rw [Document.withUri, himports, Document.unplaced, Document.unplaced]
  simp only [List.map_set]
  rfl

/-- A text with the quoted form of a URI between two parts of it. -/
def withQuoted (before : List Char) (uri : String) (back : List Char) : String :=
  String.ofList (before ++ (quoted uri.toList ++ back))

/-- Where an import stands in a text: `token` is its quoted word, with `before` in front of it and
`back` behind it. -/
structure Import.IsWrittenAs (imported : Import) (text path : String) (before : List Char)
    (token : Token) (back : List Char) : Prop where
  /-- The text is the word with what stands around it. -/
  text_eq : text.toList = before ++ (token.lexeme ++ back)
  /-- The word is one of those that are taken. -/
  mem_tokens : token ∈ (scanFile path text).1
  /-- It is taken as a quoted word. -/
  terminal_eq : token.terminal = .string
  /-- It stands where its position says. -/
  start_eq : token.start = Position.advance {} before
  /-- The import ends in the line where the word ends. -/
  endLine_eq : imported.span.endLine = some (token.stop.line : Int)
  /-- The import ends in the column where the word ends. -/
  endColumn_eq : imported.span.endColumn = some (token.stop.column : Int)
  /-- The URI is what the word is read as. -/
  uri_eq : imported.uri = String.ofList (quotedText token.lexeme)

/-- The quoted word of an import stands in the text it is read from, and the quoted form of another
URI in its place is taken as one word and read as that URI. -/
theorem Document.ofSource_withQuoted {text path : String} {digest : Option String}
    {document : Document} (hread : Document.ofSource text path digest = .ok document) {k : Nat}
    {imported : Import} (himported : document.imports[k]? = some imported) :
    ∃ before token back, imported.IsWrittenAs text path before token back ∧
      Terminal.string.wordLength (token.lexeme ++ back) = token.lexeme.length ∧
        ∀ uri : String, IsOneLine uri →
          token.quoting uri.toList ∈ (scanFile path (withQuoted before uri back)).1 ∧
            (Document.ofSource (withQuoted before uri back) path digest).map Document.unplaced =
              .ok (document.withUri k uri).unplaced := by
  obtain ⟨tokens, a, hscan, hdocument⟩ := exists_draft_of_ofSource hread
  have hreadable := readable_draft path
  have hdraft : a.imports[k]? = some imported := by
    rwa [← (a.document_withImport hdocument k imported).1]
  obtain ⟨us, token, vs, rfl, hterminal, huri, hline, hcolumn, hother⟩ :=
    yields_draft_set (yields_of_scanFile hscan) hdraft
  have hcourse := scans_scanFile path text
  rw [hscan] at hcourse
  obtain ⟨before, back, htext, hstart, hword, hrequote⟩ :=
    hcourse.exists_requote hreadable hterminal
  have hmem : token ∈ (scanFile path text).1 := by
    rw [hscan]
    exact List.mem_append_right us List.mem_cons_self
  refine ⟨before, token, back, ⟨htext, hmem, hterminal, hstart, hline, hcolumn, huri⟩, hword,
    fun uri hone => ?_⟩
  obtain ⟨vs', b, hnew, hwords⟩ := hrequote uri.toList hone
  have hscan' : scanFile path (withQuoted before uri back) =
      (us ++ token.quoting uri.toList :: vs', .accepted b) := by
    rw [scanFile, withQuoted, String.toList_ofList]
    exact hnew.scan_eq
  -- the same words are a sentence with the URI, and the words settle what is read
  obtain ⟨span, hyields⟩ := hother (token.quoting uri.toList) rfl
  have hsame : (us ++ token.quoting uri.toList :: vs').map Token.word =
      (us ++ token.quoting uri.toList :: vs).map Token.word := by
    rw [List.map_append, List.map_append, List.map_cons, List.map_cons, hwords]
  obtain ⟨other, hotherYields, hpackage, himports, hdefinitions⟩ :=
    settles_draft path hyields hsame
  obtain rfl : other = b :=
    eq_of_yields hreadable.isDeterministic hotherYields (yields_of_scanFile hscan')
  have hquoted : String.ofList (quotedText (token.quoting uri.toList).lexeme) = uri := by
    rw [Token.quoting, quotedText_quoted, String.ofList_toList]
  have hnewDocument := (a.document_withImport hdocument k
    { uri := String.ofList (quotedText (token.quoting uri.toList).lexeme),
      ns := imported.ns, span := span }).2
  rw [Document.ofSource, hscan', Document.unplaced_withUri himported uri span]
  refine ⟨List.mem_append_right us List.mem_cons_self, ?_⟩
  rw [Draft.document_congr hnewDocument hpackage himports hdefinitions, hquoted]

/-- **Quoted words are read from left to right.** Both replacements give what reading from left to
right gives, with every quoted word that can be taken. So where a URI on one line is written in its
quoted form, this is one word and is read as the URI, in place of any quoted word of an import. -/
theorem strings_are_read_from_left_to_right :
    (∀ text : List Char, 0 < Terminal.string.wordLength text →
      ∃ inner, text.take (Terminal.string.wordLength text) = '"' :: (inner ++ ['"']) ∧
        quotedText (text.take (Terminal.string.wordLength text)) = unescape inner) ∧
      ∀ {text path : String} {digest : Option String} {document : Document},
        Document.ofSource text path digest = .ok document →
          ∀ {k : Nat} {imported : Import}, document.imports[k]? = some imported →
            ∃ before token back, imported.IsWrittenAs text path before token back ∧
              (∀ (uri : String) (more : List Char), IsOneLine uri →
                token.lexeme ++ back = quoted uri.toList ++ more →
                  token.lexeme = quoted uri.toList ∧ imported.uri = uri) ∧
                ∀ uri : String, IsOneLine uri →
                  token.quoting uri.toList ∈ (scanFile path (withQuoted before uri back)).1 ∧
                    (Document.ofSource (withQuoted before uri back) path digest).map
                        Document.unplaced =
                      .ok (document.withUri k uri).unplaced := by
  refine ⟨fun text => quotedText_eq_unescape, ?_⟩
  intro text path digest document hread k imported himported
  obtain ⟨before, token, back, hwritten, hword, hquoted⟩ :=
    Document.ofSource_withQuoted hread himported
  refine ⟨before, token, back, hwritten, fun uri more hone htext => ?_, hquoted⟩
  have hlexeme := eq_quoted_of_wordLength hone hword htext
  refine ⟨hlexeme, ?_⟩
  rw [hwritten.uri_eq, hlexeme, quotedText_quoted, String.ofList_toList]

/-- A URI that ends with a backslash and has a quote. -/
def backslashText : String :=
  "package p import model \"a\\\"b\\\\\""

/-- Its document. -/
def backslashDocument : Document :=
  let at_ (column endColumn : Int) : Span :=
    ⟨some "p.fidl", some 1, some column, some 1, some endColumn⟩
  { package := "p", sourcePath := "p.fidl", span := at_ 1 10,
    imports := [{ uri := "a\"b\\", span := at_ 11 32 }] }

/-- Its quoted word is read from left to right, and may be that of a single backslash. -/
theorem strings_backslashText :
    Document.ofSource backslashText "p.fidl" = .ok backslashDocument ∧
      (∃ inner, ['"', '\\', '\\', '"'] = '"' :: (inner ++ ['"']) ∧
        quotedText ['"', '\\', '\\', '"'] = unescape inner) ∧
        ∃ before token back, backslashDocument.imports[0].IsWrittenAs backslashText "p.fidl"
          before token back ∧
            token.quoting ['\\'] ∈ (scanFile "p.fidl" (withQuoted before "\\" back)).1 ∧
              (Document.ofSource (withQuoted before "\\" back) "p.fidl").map Document.unplaced =
                .ok (backslashDocument.withUri 0 "\\").unplaced := by
  have hread : Document.ofSource backslashText "p.fidl" = .ok backslashDocument := by
    decide +kernel
  have hone : IsOneLine "\\" := by decide
  have hpos : 0 < Terminal.string.wordLength ['"', '\\', '\\', '"'] := by decide
  obtain ⟨before, token, back, hwritten, -, hquoted⟩ :=
    strings_are_read_from_left_to_right.2 hread
      (show backslashDocument.imports[0]? = some _ from rfl)
  exact ⟨hread, strings_are_read_from_left_to_right.1 _ hpos, before, token, back, hwritten,
    hquoted "\\" hone⟩

end FrancaLint
