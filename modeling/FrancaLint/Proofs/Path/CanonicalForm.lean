import FrancaLint.Proofs.Path.Canonical

/-! # The form of canonical identifiers

What a canonical identifier looks like, said of the text alone: which segments it has between its
slashes. The texts of folded segments have this form and no others do, and each of them is the
canonical spelling of some path.

* `IsCanonical`, the form, and `isCanonical_iff_isTidy`: it is that of the texts of folded segments.
* `IsTidy.exists_normalizeChars_eq`: each of these texts is its own fold and the canonical spelling
  of a path, even if it starts with what looks like a scheme or a drive.
* `isCanonical_iff_exists_normalize`. -/

namespace FrancaLint.Path

variable {path text : List Char}

/-- A path has **canonical form** when its segments, which are what its slashes split it into, lead
on without detours: steps upwards only away from the root and before all names. -/
structure IsCanonical (path : List Char) : Prop where
  /-- It is not empty. -/
  ne_nil : path ≠ []
  /-- It has no backslash. -/
  no_backslash : '\\' ∉ path
  /-- No segment is empty but the first, which then stands in front of a slash at the start. In `/`
  itself nothing stands behind that slash. -/
  no_empty : path = ['/'] ∨ [] ∉ (path.splitOn '/').tail
  /-- No segment is `.`, unless the path is. -/
  no_here : path = here ∨ here ∉ path.splitOn '/'
  /-- No segment is `..` if the path starts at the root. -/
  no_above : isRooted path = true → above ∉ path.splitOn '/'
  /-- All segments that are `..` come first if it does not. -/
  above_first : isRooted path = false →
    ∃ steps names, path.splitOn '/' = List.replicate steps above ++ names ∧ above ∉ names
  /-- It ends in a slash only if it is nothing else. -/
  no_slash_last : path.getLast? = some '/' → path = ['/']

/-! ## Folded segments -/

/-- Steps upwards, if not at the root, and names behind them are folded segments. -/
theorem isFolded_reverse {absolute : Bool} {steps : Nat} {names : List (List Char)}
    (hzero : absolute = true → steps = 0) (hnames : ∀ name ∈ names, IsName name) :
    IsFolded absolute (List.replicate steps above ++ names).reverse := by
  induction names using List.reverseRecOn with
  | nil =>
    rw [List.append_nil, List.reverse_replicate]
    exact .climb steps hzero
  | append_singleton names name ih =>
    rw [List.forall_mem_append, List.forall_mem_singleton] at hnames
    rw [← List.append_assoc, List.reverse_append, List.reverse_singleton, List.singleton_append]
    exact .name (ih hnames.1) hnames.2

/-- Folded segments are nothing else. -/
theorem IsFolded.exists_reverse_eq {absolute : Bool} {inner : List (List Char)}
    (h : IsFolded absolute inner) : ∃ steps names,
      inner.reverse = List.replicate steps above ++ names ∧ (absolute = true → steps = 0) ∧
        ∀ name ∈ names, IsName name := by
  induction h with
  | climb steps hzero =>
    refine ⟨steps, [], ?_, hzero, fun name hmem => absurd hmem List.not_mem_nil⟩
    rw [List.reverse_replicate, List.append_nil]
  | @name inner segment _ hname ih =>
    obtain ⟨steps, names, heq, hzero, hnames⟩ := ih
    refine ⟨steps, names ++ [segment], ?_, hzero, ?_⟩
    · rw [List.reverse_cons, heq, List.append_assoc]
    · rw [List.forall_mem_append, List.forall_mem_singleton]
      exact ⟨hnames, hname⟩

/-! ## Empty segments -/

/-- A path has a segment. -/
theorem segments_ne_nil (path : List Char) : segments path ≠ [] := by
  rw [segments_eq_splitOn]
  exact List.splitOn_ne_nil _ _

/-- The segment behind a slash at the end is empty. -/
theorem nil_mem_tail_segments (h : path.getLast? = some '/') : [] ∈ (segments path).tail := by
  obtain ⟨front, rfl⟩ := List.getLast?_eq_some_iff.mp h
  rw [segments_append_slash, List.tail_append_of_ne_nil (segments_ne_nil front)]
  exact List.mem_append_right _ (List.mem_singleton_self [])

/-- The first segment is empty only in front of a slash. -/
theorem nil_not_mem_segments (hne : path ≠ []) (hrooted : isRooted path = false)
    (htail : [] ∉ (segments path).tail) : [] ∉ segments path := by
  obtain ⟨first, more, hsegments⟩ := List.exists_cons_of_ne_nil (segments_ne_nil path)
  have hjoin := join_segments path
  rw [hsegments] at hjoin htail ⊢
  rw [List.mem_cons, not_or]
  refine ⟨?_, htail⟩
  rintro rfl
  cases more with
  | nil => exact hne hjoin.symm
  | cons second more =>
    rw [join_cons [] (List.cons_ne_nil second more)] at hjoin
    rw [← hjoin] at hrooted
    cases hrooted

/-! ## Texts of folded segments -/

/-- The root has canonical form. -/
theorem isCanonical_root : IsCanonical ['/'] where
  ne_nil := List.cons_ne_nil _ _
  no_backslash := by decide
  no_empty := .inl rfl
  no_here := .inr (by rw [← segments_eq_splitOn]; decide)
  no_above _ := by rw [← segments_eq_splitOn]; decide
  above_first := nofun
  no_slash_last _ := rfl

/-- The directory itself has canonical form. -/
theorem isCanonical_here : IsCanonical here where
  ne_nil := List.cons_ne_nil _ _
  no_backslash := by decide
  no_empty := .inr (by rw [← segments_eq_splitOn]; decide)
  no_here := .inl rfl
  no_above := nofun
  above_first _ := ⟨0, [here], by rw [← segments_eq_splitOn]; decide, by decide⟩
  no_slash_last := nofun

/-- Any other path has canonical form by its segments. -/
theorem isCanonical_of_segments (hne : path ≠ []) (hback : '\\' ∉ path)
    (hempty : [] ∉ (segments path).tail) (hhere : here ∉ segments path)
    (habove : isRooted path = true → above ∉ segments path)
    (hfirst : isRooted path = false →
      ∃ steps names, segments path = List.replicate steps above ++ names ∧ above ∉ names) :
    IsCanonical path := by
  rw [segments_eq_splitOn] at hhere habove hfirst
  refine ⟨hne, hback, .inr ?_, .inr hhere, habove, hfirst, fun hlast => ?_⟩
  · rwa [← segments_eq_splitOn]
  · exact absurd (nil_mem_tail_segments hlast) hempty

/-- Names from the root have canonical form. -/
theorem isCanonical_slash_join {names : List (List Char)} (hne : names ≠ [])
    (hnames : ∀ name ∈ names, IsName name) (hback : '\\' ∉ '/' :: join names) :
    IsCanonical ('/' :: join names) := by
  have hsegments : segments ('/' :: join names) = [] :: names := by
    rw [segments_slash, segments_join hne fun name hmem => (hnames name hmem).no_slash]
  refine isCanonical_of_segments (List.cons_ne_nil _ _) hback ?_ ?_ (fun _ => ?_) nofun <;>
    rw [hsegments]
  · exact fun hmem => (hnames _ hmem).ne_nil rfl
  · rw [List.mem_cons, not_or]
    exact ⟨by decide, fun hmem => (hnames _ hmem).ne_here rfl⟩
  · rw [List.mem_cons, not_or]
    exact ⟨by decide, fun hmem => (hnames _ hmem).ne_above rfl⟩

/-- Steps upwards and names behind them have canonical form. -/
theorem isCanonical_join {steps : Nat} {names : List (List Char)}
    (hne : List.replicate steps above ++ names ≠ []) (hnames : ∀ name ∈ names, IsName name)
    (hback : '\\' ∉ join (List.replicate steps above ++ names)) :
    IsCanonical (join (List.replicate steps above ++ names)) := by
  have hmem : ∀ segment ∈ List.replicate steps above ++ names,
      segment ≠ [] ∧ segment ≠ here ∧ '/' ∉ segment := by
    intro segment hmem
    rcases List.mem_append.mp hmem with hmem | hmem
    · rw [List.eq_of_mem_replicate hmem]
      decide
    · exact ⟨(hnames _ hmem).ne_nil, (hnames _ hmem).ne_here, (hnames _ hmem).no_slash⟩
  have hsegments := segments_join hne fun segment h => (hmem segment h).2.2
  have hrooted := isRooted_join fun segment h => ⟨(hmem segment h).1, (hmem segment h).2.2⟩
  have hjoin := mt (join_eq_nil_iff fun segment h => (hmem segment h).1).mp hne
  refine isCanonical_of_segments hjoin hback ?_ ?_ (fun h => ?_) (fun _ => ⟨steps, names, ?_, ?_⟩)
  · rw [hsegments]
    exact fun h => (hmem _ (List.mem_of_mem_tail h)).1 rfl
  · rw [hsegments]
    exact fun h => (hmem _ h).2.1 rfl
  · exact absurd (hrooted.symm.trans h) Bool.false_ne_true
  · rw [hsegments]
  · exact fun h => (hnames _ h).ne_above rfl

/-- The text of folded segments has canonical form. -/
theorem IsTidy.isCanonical (h : IsTidy text) : IsCanonical text := by
  have hback := h.backslash_not_mem
  obtain ⟨absolute, inner, hfolded, rfl⟩ := h
  obtain ⟨steps, names, heq, hzero, hnames⟩ := hfolded.exists_reverse_eq
  rw [heq] at hback ⊢
  by_cases hempty : List.replicate steps above ++ names = []
  · rw [hempty]
    cases absolute with
    | true => exact isCanonical_root
    | false => exact isCanonical_here
  cases absolute with
  | true =>
    rw [hzero rfl, List.replicate_zero, List.nil_append] at hback hempty ⊢
    exact isCanonical_slash_join hempty hnames hback
  | false =>
    rw [spelled, if_neg Bool.false_ne_true, if_neg hempty] at hback ⊢
    exact isCanonical_join hempty hnames hback

/-- A text of canonical form is that of folded segments. -/
theorem IsCanonical.isTidy (h : IsCanonical path) : IsTidy path := by
  obtain ⟨hne, hback, hempty, hhere, habove, hfirst, -⟩ := h
  rw [← segments_eq_splitOn] at hempty hhere habove hfirst
  rcases hempty with heq | hempty
  · exact ⟨true, [], isFolded_nil, heq⟩
  rcases hhere with heq | hhere
  · exact ⟨false, [], isFolded_nil, heq⟩
  have hname : ∀ segment ∈ segments path, segment ≠ [] → segment ≠ above → IsName segment := by
    intro segment hmem hnil hup
    refine ⟨hnil, fun heq => hhere (heq ▸ hmem), hup, fun hslash => ?_, fun hchar => ?_⟩
    · exact (mem_of_mem_segments hmem _ hslash).1 rfl
    · exact hback (mem_of_mem_segments hmem _ hchar).2
  cases hrooted : isRooted path with
  | true =>
    -- behind the empty segment in front of the first slash, all segments are names
    obtain ⟨rest, rfl⟩ := isRooted_iff.mp hrooted
    have hup := habove hrooted
    rw [segments_slash] at hempty hup hname
    have hnames : ∀ segment ∈ segments rest, IsName segment := fun segment hmem =>
      hname segment (List.mem_cons_of_mem _ hmem) (fun heq => hempty (heq ▸ hmem))
        fun heq => hup (heq ▸ List.mem_cons_of_mem _ hmem)
    have hfolded : IsFolded true (List.replicate 0 above ++ segments rest).reverse :=
      isFolded_reverse (fun _ => rfl) hnames
    refine ⟨true, (segments rest).reverse, hfolded, ?_⟩
    rw [List.reverse_reverse, spelled, if_pos rfl, join_segments]
  | false =>
    -- the first segment is not empty either, and behind the steps upwards all are names
    obtain ⟨steps, names, heq, hup⟩ := hfirst hrooted
    have hnil := nil_not_mem_segments hne hrooted hempty
    have hnames : ∀ segment ∈ names, IsName segment := by
      intro segment hmem
      have hsegment : segment ∈ segments path := heq ▸ List.mem_append_right _ hmem
      exact hname segment hsegment (fun h => hnil (h ▸ hsegment)) fun h => hup (h ▸ hmem)
    refine ⟨false, (segments path).reverse, ?_, ?_⟩
    · rw [heq]
      exact isFolded_reverse (fun h => absurd h Bool.false_ne_true) hnames
    · rw [List.reverse_reverse, spelled, if_neg Bool.false_ne_true,
        if_neg (segments_ne_nil path), join_segments]

/-- The texts of canonical form are those of folded segments. -/
theorem isCanonical_iff_isTidy : IsCanonical text ↔ IsTidy text :=
  ⟨IsCanonical.isTidy, IsTidy.isCanonical⟩

/-! ## Canonical spellings -/

/-- A scheme does not begin with a dot. -/
theorem not_hasScheme_dot (text : List Char) : ¬ HasScheme ('.' :: text) := by
  rintro ⟨scheme, rest, ⟨f, i, l, e, rfl, hf, -⟩, heq⟩
  rw [← (List.cons.inj heq).1] at hf
  exact absurd hf (by decide)

/-- A `.` behind the root is folded away. -/
theorem fold_slash_dot (rest : List Char) :
    fold ('/' :: '.' :: '/' :: rest) = fold ('/' :: rest) := by
  have hsegments : segments ('/' :: '.' :: '/' :: rest) = [] :: here :: segments rest := by
    rw [segments_slash]
    exact congrArg _ (segments_append_slash here rest)
  rw [fold, hsegments, fold, segments_slash]
  rfl

/-- A `.` in front of a relative path is folded away. -/
theorem fold_dot_slash (h : isRooted text = false) : fold ('.' :: '/' :: text) = fold text := by
  have hsegments : segments ('.' :: '/' :: text) = here :: segments text :=
    segments_append_slash here text
  rw [fold, hsegments, fold, h]
  rfl

/-- Every text of folded segments is the canonical spelling of a path: a `.` in front of it is
folded away, and keeps what looks like a scheme or a drive from being dropped. -/
theorem IsTidy.exists_normalizeChars_eq (h : IsTidy text) : ∃ path, normalizeChars path = text := by
  have hback := h.backslash_not_mem
  have hsingle := h.collapseSlashes_eq
  cases hrooted : isRooted text with
  | true =>
    obtain ⟨rest, rfl⟩ := isRooted_iff.mp hrooted
    have hdrive : ¬ HasDrive ('/' :: '.' :: '/' :: rest) := by
      rw [hasDrive_iff]
      rintro ⟨more, hmore⟩
      cases hmore
    have hdotted : collapseSlashes ('/' :: '.' :: '/' :: rest) = '/' :: '.' :: '/' :: rest := by
      rw [collapseSlashes_slash rfl, collapseSlashes_cons_of_ne (by decide), hsingle]
    refine ⟨'/' :: '.' :: '/' :: rest, ?_⟩
    rw [normalizeChars_eq_fold (by simpa using hback) hdotted (not_hasScheme_slash _) hdrive,
      fold_slash_dot, h.fold_eq]
  | false =>
    have hdrive : ¬ HasDrive ('.' :: '/' :: text) := by
      rw [hasDrive_iff]
      rintro ⟨more, hmore⟩
      cases hmore
    have hdotted : collapseSlashes ('.' :: '/' :: text) = '.' :: '/' :: text := by
      rw [collapseSlashes_cons_of_ne (by decide), collapseSlashes_slash hrooted, hsingle]
    refine ⟨'.' :: '/' :: text, ?_⟩
    rw [normalizeChars_eq_fold (by simpa using hback) hdotted (not_hasScheme_dot _) hdrive,
      fold_dot_slash hrooted, h.fold_eq]

/-- **The form of canonical identifiers:** every canonical identifier has canonical form, and every
text of canonical form is the canonical identifier of some spelling. -/
theorem isCanonical_iff_exists_normalize (text : String) :
    IsCanonical text.toList ↔ ∃ path, normalize path = text := by
  rw [isCanonical_iff_isTidy]
  constructor
  · intro h
    obtain ⟨path, hpath⟩ := h.exists_normalizeChars_eq
    refine ⟨String.ofList path, ?_⟩
    rw [normalize, String.toList_ofList, hpath, String.ofList_toList]
  · rintro ⟨path, rfl⟩
    rw [normalize, String.toList_ofList]
    exact isTidy_normalizeChars path.toList

end FrancaLint.Path
