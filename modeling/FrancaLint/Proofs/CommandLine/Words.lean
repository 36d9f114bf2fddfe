import FrancaLint.CommandLine.Arguments

/-! # The sources of a command line

The words of a command line are read one after another, and the sources are only collected on the
way. So a command line with one source in place of several asks for the same check of that source.

* `Word.readAll_append` and `Reading.words_append`: words behind others.
* `Reading.withSources` and `Reading.words_withSources`: other sources change nothing else.
* `Opens`, words that may stand in front of the sources; `Arguments.read_eq_check_iff`, the requests
  for a check, and `Arguments.read_of_mem_sources`, the request for one of the sources. -/

namespace FrancaLint

/-! ## Words -/

namespace Word

/-- Words in front of the end of the options are read in order. -/
theorem readAll_cons {text : String} (hseparator : text ≠ "--") (rest : List String) :
    readAll (text :: rest) = do return (← read text) :: (← readAll rest) := by
  rw [readAll]
  exact hseparator

/-- Words that do not end the options are read in front of any others. -/
theorem readAll_append {before : List String} (hseparator : "--" ∉ before) {front : List Word}
    (h : readAll before = .ok front) (rest : List String) :
    readAll (before ++ rest) = (readAll rest).map (front ++ ·) := by
  induction before generalizing front with
  | nil =>
    cases h
    rw [List.nil_append]
    cases readAll rest <;> rfl
  | cons text before ih =>
    rw [List.mem_cons, not_or] at hseparator
    obtain ⟨hne, hseparator⟩ := hseparator
    rw [readAll_cons (Ne.symm hne)] at h
    rw [List.cons_append, readAll_cons (Ne.symm hne)]
    cases hword : read text with
    | error fault =>
      rw [hword] at h
      cases h
    | ok word =>
      cases hbefore : readAll before with
      | error fault =>
        rw [hword, hbefore] at h
        cases h
      | ok words =>
        rw [hword, hbefore] at h
        cases h
        rw [ih hseparator hbefore]
        cases readAll rest <;> rfl

/-- The end of the options is no plain word. -/
theorem ne_separator {text : String} (h : read text = .ok (.plain text)) : text ≠ "--" := by
  rintro rfl
  cases h

/-- Plain words are read as they are. -/
theorem readAll_plain {texts : List String} (h : ∀ text ∈ texts, read text = .ok (.plain text))
    (rest : List String) :
    readAll (texts ++ rest) = (readAll rest).map (texts.map .plain ++ ·) := by
  have hread : readAll texts = .ok (texts.map .plain) := by
    induction texts with
    | nil => rfl
    | cons text texts ih =>
      obtain ⟨hword, hwords⟩ := List.forall_mem_cons.mp h
      rw [readAll_cons (ne_separator hword), hword, ih hwords]
      rfl
  exact readAll_append (fun hmem => ne_separator (h _ hmem) rfl) hread rest

end Word

/-! ## Readings -/

namespace Reading

/-- What is read behind some words depends only on what has been read of them. -/
theorem words_append {reading next : Reading} {front : List Word}
    (h : words reading front = .ok (some next)) (back : List Word) :
    words reading (front ++ back) = words next back := by
  fun_induction words reading front with
  | case1 reading =>
    cases h
    rfl
  | case2 reading text rest ih => exact ih h
  | case3 reading rest ih => exact ih h
  | case4 reading text rest ih => exact ih h
  | case5 reading flag attached htakes value rest htext ih =>
    rw [List.cons_append, words.eq_def]
    simp only [htakes, htext, if_true]
    exact ih h
  | case6 reading flag attached htakes value rest htext ih =>
    rw [List.cons_append, words.eq_def]
    simp only [htakes, htext, if_true]
    exact ih h
  | case7 reading flag attached rest htakes htext hrest => cases h
  | case8 reading flag attached rest htakes fault hswitches => cases h
  | case9 reading flag attached rest htakes flags hswitches hset => cases h
  | case10 reading flag attached rest htakes flags hswitches set hset ih =>
    rw [List.cons_append, words.eq_def]
    simp only [htakes, hswitches, hset]
    exact ih h

/-- The reading with other **sources**. -/
def withSources (reading : Reading) (sources : List String) : Reading :=
  { reading with arguments := { reading.arguments with sources := sources } }

variable (reading : Reading) (sources : List String)

/-- While the list of sources is open, a plain word is one more source. -/
theorem plain_of_open (h : reading.closed = false) (text : String) :
    reading.plain text = reading.withSources (reading.arguments.sources ++ [text]) := by
  have hopen : ¬ reading.closed = true := by rw [h]; exact Bool.false_ne_true
  rw [plain, if_neg hopen]
  rfl

/-- While the list of sources is open, plain words are more sources. -/
theorem words_plain (h : reading.closed = false) (texts : List String) (back : List Word) :
    words reading (texts.map .plain ++ back) =
      words (reading.withSources (reading.arguments.sources ++ texts)) back := by
  induction texts generalizing reading with
  | nil => rw [List.append_nil]; rfl
  | cons text texts ih =>
    rw [List.map_cons, List.cons_append, words, plain_of_open reading h,
      List.append_cons reading.arguments.sources text texts]
    exact ih (reading.withSources (reading.arguments.sources ++ [text])) h

/-! ### Other sources -/

/-- A plain word is read alike with other sources, once the list of sources has ended. -/
theorem plain_withSources_of_closed (h : reading.closed = true) (text : String) :
    (reading.withSources sources).plain text = (reading.plain text).withSources sources := by
  simp [plain, withSources, h]

/-- The end of the options is read alike with other sources. -/
theorem separator_withSources :
    (reading.withSources sources).separator = reading.separator.withSources sources := by
  cases hclosed : reading.closed <;> simp [separator, withSources, hclosed]

/-- The end of the options leaves the arguments as they are. -/
theorem arguments_separator : reading.separator.arguments = reading.arguments := by
  unfold separator
  split <;> rfl

/-- An option with a value is set alike with other sources. -/
theorem setValue_withSources (flag : Flag) (word : String) :
    (reading.withSources sources).setValue flag word =
      (reading.setValue flag word).withSources sources := by
  cases flag <;> rfl

/-- An option with a value leaves the sources as they are. -/
theorem sources_setValue (flag : Flag) (word : String) :
    (reading.setValue flag word).arguments.sources = reading.arguments.sources := by
  cases flag <;> rfl

/-- Options without a value are set one after another, if none of them asks for help. -/
theorem setSwitches_cons {flag : Flag} (hflag : flag ≠ .help) (rest : List Flag) :
    reading.setSwitches (flag :: rest) =
      setSwitches { reading with arguments := reading.arguments.setSwitch flag } rest := by
  rw [setSwitches]
  exact hflag

/-- Options without a value are set alike with other sources. -/
theorem setSwitches_withSources (flags : List Flag) :
    (reading.withSources sources).setSwitches flags =
      (reading.setSwitches flags).map (·.withSources sources) := by
  induction flags generalizing reading with
  | nil => rfl
  | cons flag rest ih =>
    by_cases hflag : flag = .help
    · subst hflag
      rfl
    · rw [setSwitches_cons _ hflag, setSwitches_cons _ hflag, ← ih]
      cases flag <;> rfl

/-- Options without a value leave the sources as they are. -/
theorem sources_setSwitches {flags : List Flag} {next : Reading}
    (h : reading.setSwitches flags = some next) :
    next.arguments.sources = reading.arguments.sources := by
  induction flags generalizing reading with
  | nil =>
    cases h
    rfl
  | cons flag rest ih =>
    by_cases hflag : flag = .help
    · subst hflag
      cases h
    · rw [setSwitches_cons _ hflag] at h
      rw [ih _ h]
      cases flag <;> rfl

variable {reading sources}

/-- An option ends the list of sources alike with other sources, if there are some in both lists or
in neither. -/
theorem close_withSources (h : sources.isEmpty = reading.arguments.sources.isEmpty) :
    (reading.withSources sources).close = reading.close.withSources sources := by
  unfold close withSources
  rw [h]

/-- Words are read alike with other sources, if there are some in both lists or in neither: the same
sources are added to both. -/
theorem words_withSources {last : Reading} {back : List Word}
    (hempty : sources.isEmpty = reading.arguments.sources.isEmpty)
    (h : words reading back = .ok (some last)) :
    ∃ further, last.arguments.sources = reading.arguments.sources ++ further ∧
      words (reading.withSources sources) back =
        .ok (some (last.withSources (sources ++ further))) := by
  fun_induction words reading back generalizing sources with
  | case1 reading =>
    cases h
    exact ⟨[], by simp [words]⟩
  | case2 reading text rest ih =>
    rw [words]
    cases hclosed : reading.closed with
    | true =>
      rw [plain_withSources_of_closed _ _ hclosed]
      rw [plain, if_pos hclosed] at h ih ⊢
      exact ih hempty h
    | false =>
      -- the word is one more source in both lists
      have hopen : (reading.withSources sources).closed = false := hclosed
      rw [plain_of_open _ hclosed] at h ih
      rw [plain_of_open _ hopen]
      have hsome : (sources ++ [text]).isEmpty =
          (reading.arguments.sources ++ [text]).isEmpty := by
        cases sources <;> cases reading.arguments.sources <;> rfl
      obtain ⟨further, hsources, hwords⟩ := ih hsome h
      refine ⟨text :: further, ?_, ?_⟩
      · rw [List.append_cons reading.arguments.sources text further]
        exact hsources
      · rw [List.append_cons sources text further]
        exact hwords
  | case3 reading rest ih =>
    rw [words, separator_withSources]
    rw [arguments_separator] at ih
    exact ih hempty h
  | case4 reading text rest ih =>
    rw [words, close_withSources hempty]
    exact ih hempty h
  | case5 reading flag attached htakes value rest htext ih =>
    rw [words.eq_def]
    simp only [htakes, htext, if_true]
    rw [close_withSources hempty, setValue_withSources]
    rw [sources_setValue] at ih
    exact ih hempty h
  | case6 reading flag attached htakes value rest htext ih =>
    rw [words.eq_def]
    simp only [htakes, htext, if_true]
    rw [close_withSources hempty, setValue_withSources]
    rw [sources_setValue] at ih
    exact ih hempty h
  | case7 reading flag attached rest htakes htext hrest => cases h
  | case8 reading flag attached rest htakes fault hswitches => cases h
  | case9 reading flag attached rest htakes flags hswitches hset => cases h
  | case10 reading flag attached rest htakes flags hswitches set hset ih =>
    rw [words.eq_def]
    simp only [htakes, hswitches]
    rw [close_withSources hempty, setSwitches_withSources, hset]
    rw [sources_setSwitches _ hset] at ih
    exact ih hempty h

end Reading

/-! ## Requests -/

/-- Words **open** a command line when they are options with their values, behind which sources may
stand. -/
def Opens (before : List String) : Prop :=
  "--" ∉ before ∧ ∃ words reading, Word.readAll before = .ok words ∧
    Reading.words {} words = .ok (some reading) ∧ reading.arguments.sources = [] ∧
    reading.closed = false

/-- A command line asks for a check when its words have a reading with sources and without refused
words. -/
theorem Arguments.read_eq_check_iff {texts : List String} {arguments : Arguments} :
    Arguments.read texts = .ok (.check arguments) ↔ ∃ words reading,
      Word.readAll texts = .ok words ∧ Reading.words {} words = .ok (some reading) ∧
        reading.arguments = arguments ∧ arguments.sources ≠ [] ∧ reading.refused = [] := by
  unfold Arguments.read
  cases hwords : Word.readAll texts with
  | error fault => simp [bind, Except.bind]
  | ok words =>
    cases hread : Reading.words {} words with
    | error fault => simp [bind, Except.bind, hread]
    | ok reading? =>
      cases reading? with
      | none => simp [bind, Except.bind, hread, pure, Except.pure]
      | some reading =>
        by_cases hsources : reading.arguments.sources = []
        · refine iff_of_false (by simp [bind, Except.bind, hread, hsources, throw, throwThe,
            MonadExceptOf.throw]) ?_
          rintro ⟨_, _, ⟨⟩, hother, rfl, hsome, -⟩
          rw [hread] at hother
          cases hother
          exact hsome hsources
        · by_cases hrefused : reading.refused = []
          · have hsome : reading.arguments = arguments → arguments.sources ≠ [] := by
              rintro rfl
              exact hsources
            simpa [bind, Except.bind, hread, pure, Except.pure, hsources, hrefused] using hsome
          · simp [bind, Except.bind, hread, hsources, hrefused, throw, throwThe,
              MonadExceptOf.throw]

/-- Behind words that open a command line any plain words are read as its sources. -/
theorem Opens.exists_reading {before : List String} (h : Opens before) :
    ∃ (front : List Word) (opened : Reading),
      (∀ sources after : List String,
        (∀ source ∈ sources, Word.read source = .ok (.plain source)) →
          Word.readAll (before ++ (sources ++ after)) =
            (Word.readAll after).map fun back => front ++ (sources.map .plain ++ back)) ∧
      ∀ (sources : List String) (back : List Word),
        Reading.words {} (front ++ (sources.map .plain ++ back)) =
          Reading.words (opened.withSources sources) back := by
  obtain ⟨hseparator, front, opened, hfront, hopened, hnone, hopen⟩ := h
  refine ⟨front, opened, ?_, ?_⟩
  · intro sources after hplain
    rw [Word.readAll_append hseparator hfront, Word.readAll_plain hplain]
    cases Word.readAll after <;> rfl
  · intro sources back
    rw [Reading.words_append hopened, Reading.words_plain _ hopen, hnone, List.nil_append]

/-- A command line that asks for a check of some sources asks for the same check of one of them when
it names no others. -/
theorem Arguments.read_of_mem_sources {before after : List String} {arguments : Arguments}
    (hbefore : Opens before)
    (hplain : ∀ source ∈ arguments.sources, Word.read source = .ok (.plain source))
    (h : Arguments.read (before ++ arguments.sources ++ after) = .ok (.check arguments))
    {source : String} (hmem : source ∈ arguments.sources) :
    Arguments.read (before ++ source :: after) =
      .ok (.check { arguments with sources := [source] }) := by
  obtain ⟨front, opened, hline, hwords⟩ := hbefore.exists_reading
  rw [List.append_assoc] at h
  obtain ⟨words, reading, hread, hreading, rfl, hsome, hrefused⟩ :=
    Arguments.read_eq_check_iff.mp h
  rw [hline _ after hplain] at hread
  cases hafter : Word.readAll after with
  | error fault =>
    rw [hafter] at hread
    cases hread
  | ok back =>
    rw [hafter] at hread
    cases hread
    rw [hwords] at hreading
    have hempty : [source].isEmpty =
        (opened.withSources reading.arguments.sources).arguments.sources.isEmpty :=
      (List.isEmpty_eq_false_iff.mpr hsome).symm
    obtain ⟨further, hfurther, hsingle⟩ := Reading.words_withSources hempty hreading
    -- the words behind the sources add none to them
    obtain rfl : further = [] := List.self_eq_append_right.mp hfurther
    refine Arguments.read_eq_check_iff.mpr ⟨front ++ ([source].map .plain ++ back),
      reading.withSources [source], ?_, ?_, rfl, List.cons_ne_nil _ _, hrefused⟩
    · have hsource := hline [source] after (List.forall_mem_singleton.mpr (hplain source hmem))
      rwa [hafter] at hsource
    · rw [hwords]
      exact hsingle

end FrancaLint
