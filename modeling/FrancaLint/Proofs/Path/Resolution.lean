import FrancaLint.Proofs.Path.Roots

/-! # Resolving imports

A relative import is resolved by walking through its segments from the directory of its file, and an
absolute one by walking through them from the root. Schemes, drives, backslashes and repeated
slashes are read over on the way, and do not change where the walk leads.

* `ofNames`, the absolute path with some names, and `below`, a text behind such a path.
* `normalizeChars_below`: the canonical form of a relative text below a directory.
* `resolve_walks_segments`: what an import is resolved to, with `resolve_sharedFile` for two
  imports. -/

namespace FrancaLint.Path

variable {names : List (List Char)} {text uri : List Char}

/-! ## Texts below a directory -/

/-- The absolute path with some names on the way from the root. -/
def ofNames (names : List (List Char)) : String :=
  String.ofList ('/' :: join names)

/-- A text **below** a directory: a slash and a name for each step from the root, and then a slash
and the text. -/
def below : List (List Char) → List Char → List Char
  | [], text => '/' :: text
  | name :: names, text => '/' :: (name ++ below names text)

/-- A text below a directory starts with a slash. -/
theorem exists_below_eq (names : List (List Char)) (text : List Char) :
    ∃ rest, below names text = '/' :: rest := by
  cases names with
  | nil => exact ⟨_, rfl⟩
  | cons name names => exact ⟨_, rfl⟩

/-- Joined names with a slash and a text behind them are the text below their directory. -/
theorem join_append_slash (hne : names ≠ []) (text : List Char) :
    '/' :: join names ++ '/' :: text = below names text := by
  induction names with
  | nil => exact absurd rfl hne
  | cons name rest ih =>
    cases rest with
    | nil => rw [join, List.intercalate_singleton, List.cons_append, below, below]
    | cons other rest =>
      have hrest := ih (List.cons_ne_nil other rest)
      rw [join_cons name (List.cons_ne_nil other rest), below, ← hrest, List.cons_append,
        List.append_assoc]

/-- Joined names end with the last of them. -/
theorem exists_join_concat (names : List (List Char)) (last : List Char) :
    ∃ front, join (names ++ [last]) = front ++ last := by
  induction names with
  | nil => exact ⟨[], List.intercalate_singleton⟩
  | cons name names ih =>
    obtain ⟨front, hfront⟩ := ih
    refine ⟨name ++ '/' :: front, ?_⟩
    rw [List.cons_append, join_cons name (List.concat_ne_nil last names), hfront,
      List.append_assoc, List.cons_append]

/-- A directory has no slash at its end to be trimmed, unless it is the root. -/
theorem trimEnd_append_slash (hnames : ∀ name ∈ names, IsName name) (text : List Char) :
    trimEnd ('/' :: join names) ++ '/' :: text = below names text := by
  rcases List.eq_nil_or_concat names with rfl | ⟨init, last, rfl⟩
  · rfl
  · rw [List.concat_eq_append] at hnames ⊢
    have hlast : IsName last := hnames last (List.mem_append_right _ List.mem_cons_self)
    rcases List.eq_nil_or_concat last with hnil | ⟨start, c, rfl⟩
    · exact absurd hnil hlast.ne_nil
    · rw [List.concat_eq_append] at hlast ⊢
      have hmem : c ∈ start ++ [c] := List.mem_append_right _ List.mem_cons_self
      obtain ⟨front, hfront⟩ := exists_join_concat init (start ++ [c])
      have htrim : trimEnd ('/' :: join (init ++ [start ++ [c]])) =
          '/' :: join (init ++ [start ++ [c]]) := by
        rw [hfront, ← List.append_assoc, ← List.cons_append]
        refine trimEnd_concat _ ?_ ?_
        · rintro rfl
          exact hlast.no_slash hmem
        · rintro rfl
          exact hlast.no_backslash hmem
      rw [htrim, join_append_slash (List.append_ne_nil_of_right_ne_nil _ (List.cons_ne_nil _ _))]

/-- The names have no backslashes that could be turned into slashes. -/
theorem slashed_below (hnames : ∀ name ∈ names, IsName name) (text : List Char) :
    slashed (below names text) = below names (slashed text) := by
  induction names with
  | nil => rfl
  | cons name names ih =>
    rw [List.forall_mem_cons] at hnames
    have hname : slashed name = name := slashed_of_not_mem hnames.1.no_backslash
    calc slashed (below (name :: names) text)
        = '/' :: (slashed name ++ slashed (below names text)) := by
          rw [below, slashed, List.map_cons, List.map_append]
          rfl
      _ = below (name :: names) (slashed text) := by rw [hname, ih hnames.2, below]

/-- The names have single slashes between them. -/
theorem collapseSlashes_below (hnames : ∀ name ∈ names, IsName name)
    (htext : isRooted text = false) :
    collapseSlashes (below names text) = below names (collapseSlashes text) := by
  induction names with
  | nil => exact collapseSlashes_slash htext
  | cons name names ih =>
    rw [List.forall_mem_cons] at hnames
    obtain ⟨c, more, rfl⟩ := List.exists_cons_of_ne_nil hnames.1.ne_nil
    have hslash := hnames.1.no_slash
    have hc : c ≠ '/' := fun heq => hslash (heq ▸ List.mem_cons_self)
    have hrooted : isRooted ((c :: more) ++ below names text) = false := isRooted_cons_of_ne hc _
    rw [below, collapseSlashes_slash hrooted, collapseSlashes_append hslash, ih hnames.2, below]

/-- A text below a directory has a drive only if the first name is one, or the text has one. -/
theorem not_hasDrive_below (hnames : ∀ name ∈ names, IsName name)
    (hdrive : ∀ letter : Char, letter.isAlpha = true → names.head? ≠ some [letter, ':'])
    (htext : isRooted text = false) (hplain : ¬ HasDrive text) : ¬ HasDrive (below names text) := by
  rw [hasDrive_iff] at hplain ⊢
  rintro ⟨rest, hrest⟩
  cases names with
  | nil =>
    rw [below, afterDrive?_slash, ← afterDrive?_of_not_rooted htext] at hrest
    exact hplain ⟨rest, hrest⟩
  | cons name names =>
    obtain ⟨hname, -⟩ := List.forall_mem_cons.mp hnames
    rw [below, afterDrive?_slash] at hrest
    obtain ⟨letter, hletter, heq, hends⟩ := afterPlainDrive?_eq_some_iff.mp hrest
    obtain ⟨more, hmore⟩ := exists_below_eq names text
    have hslash := hname.no_slash
    rw [hmore] at heq
    match name with
    | [] => exact hname.ne_nil rfl
    | [c] =>
      -- the colon would be the slash behind the name
      exact absurd (List.cons.inj (List.cons.inj heq).2).1 (by decide)
    | [c, d] =>
      obtain ⟨hc, htail⟩ := List.cons.inj heq
      have hd : d = ':' := (List.cons.inj htail).1
      refine hdrive letter hletter ?_
      rw [hc, hd, List.head?_cons]
    | c :: d :: e :: other =>
      -- the drive would go on inside of the name
      have hrest : rest = e :: (other ++ '/' :: more) :=
        (List.cons.inj (List.cons.inj heq).2).2.symm
      rw [hrest] at hends
      rcases endsDrive_iff.mp hends with hnil | hfeed | hrooted
      · exact absurd hnil (List.cons_ne_nil _ _)
      · have hlength := congrArg List.length hfeed
        simp at hlength
      · obtain ⟨_, heq⟩ := isRooted_iff.mp hrooted
        rw [(List.cons.inj heq).1] at hslash
        exact hslash (by simp)

/-- The segments of a text below a directory are the names and those of the text. -/
theorem segments_below (hnames : ∀ name ∈ names, IsName name) (text : List Char) :
    segments (below names text) = [] :: names ++ segments text := by
  induction names with
  | nil => exact segments_slash text
  | cons name names ih =>
    rw [List.forall_mem_cons] at hnames
    obtain ⟨rest, hrest⟩ := exists_below_eq names text
    have hsegments := ih hnames.2
    rw [hrest, segments_slash, List.cons_append, List.cons.injEq] at hsegments
    rw [below, segments_slash, hrest, segments_append_slash,
      segments_of_not_mem hnames.1.no_slash, hsegments.2]
    rfl

/-! ## Resolution -/

/-- A text below a directory is folded by walking through its segments from there. -/
theorem fold_below (hnames : ∀ name ∈ names, IsName name) (text : List Char) :
    fold (below names text) = '/' :: join (enterAll names (segments text)) := by
  obtain ⟨rest, hrest⟩ := exists_below_eq names text
  have hrooted : isRooted (below names text) = true := by rw [hrest]; rfl
  have hwalk : enterAll [] ([] :: names ++ segments text) = enterAll names (segments text) := by
    have hnames := enterAll_of_names hnames []
    rw [List.nil_append] at hnames
    rw [List.cons_append, enterAll, List.foldl_cons, enter_nil, List.foldl_append, ← enterAll,
      ← enterAll, hnames]
  rw [fold_of_isRooted hrooted, segments_below hnames, hwalk]

/-- The canonical form of a relative spelling below a directory, if its first name is no drive, is
reached from there by walking through the segments of the plain path. -/
theorem normalizeChars_below (hnames : ∀ name ∈ names, IsName name)
    (hdrive : ∀ letter : Char, letter.isAlpha = true → names.head? ≠ some [letter, ':'])
    (hrelative : ¬ isAbsoluteChars uri = true) :
    normalizeChars (below names (dropScheme uri)) =
      '/' :: join (enterAll names (segments (plain uri))) := by
  obtain ⟨hplainDrive, hplainRoot⟩ := not_or.mp (isAbsoluteChars_iff_plain.not.mp hrelative)
  obtain ⟨hbehindDrive, hbehindRoot⟩ := not_or.mp (isAbsoluteChars_iff.not.mp hrelative)
  rw [Bool.not_eq_true] at hplainRoot hbehindRoot
  have hslashed : slashed (below names (dropScheme uri)) =
      below names (dropScheme (slashed uri)) := by
    rw [slashed_below hnames, slashed_dropScheme]
  have hplain : plain (below names (dropScheme uri)) = below names (plain uri) := by
    obtain ⟨rest, hrest⟩ := exists_below_eq names (dropScheme (slashed uri))
    rw [plain, hslashed, hrest, dropScheme_of_not_hasScheme (not_hasScheme_slash rest), ← hrest,
      collapseSlashes_below hnames hbehindRoot, plain]
  have hnone : ¬ (afterDrive? (slashed (below names (dropScheme uri)))).isSome = true := by
    rw [Option.isSome_iff_exists, ← hasDrive_iff, hslashed]
    exact not_hasDrive_below hnames hdrive hbehindRoot hbehindDrive
  have hnone' : afterDrive? (below names (plain uri)) = none := by
    rw [Option.eq_none_iff_forall_ne_some]
    exact fun rest heq =>
      not_hasDrive_below hnames hdrive hplainRoot hplainDrive (hasDrive_iff.mpr ⟨rest, heq⟩)
  rw [normalizeChars, if_neg hnone, bare_eq, hplain, hnone', Option.getD_none, fold_below hnames]

/-- **Imports are resolved by walking through their segments.** Let the names on the way to a
directory be proper names, the first of them no drive, and take a URI with slashes for its
backslashes, without its scheme and with single slashes. If the URI is relative, it is resolved to
where its segments lead from the directory. If it is absolute and no bare drive, it is resolved,
against whatever base, to where the segments behind its drive lead from the root. -/
theorem resolve_walks_segments (base : List (List Char)) (hbase : ∀ name ∈ base, IsName name)
    (hdrive : ∀ letter : Char, letter.isAlpha = true → base.head? ≠ some [letter, ':'])
    (uri : String) :
    (isAbsolute uri = false →
      resolve uri (ofNames base) = ofNames (enterAll base ((plain uri.toList).splitOn '/'))) ∧
    (isAbsolute uri = true → ¬ IsBareDrive (plain uri.toList) → ∀ other,
      resolve uri other =
        ofNames (enterAll [] ((withoutDrive (plain uri.toList)).splitOn '/'))) := by
  constructor
  · intro hrelative
    have hnot : ¬ isAbsoluteChars uri.toList = true := Bool.eq_false_iff.mp hrelative
    rw [resolve, ofNames, String.toList_ofList, resolveChars, if_neg hnot,
      trimEnd_append_slash hbase, normalizeChars_below hbase hdrive hnot, segments_eq_splitOn,
      ofNames]
  · intro habsolute hbare other
    have habsolute' : isAbsoluteChars uri.toList = true := habsolute
    obtain ⟨hfold, hrooted⟩ := normalizeChars_of_isAbsolute habsolute' hbare
    rw [resolve, resolveChars, if_pos habsolute', hfold, fold_of_isRooted hrooted,
      segments_eq_splitOn, ofNames]

/-- A relative URI with a scheme, a backslash and a step upwards, and an absolute one with a drive
and more steps upwards than it has names. -/
theorem resolve_sharedFile :
    (∀ name ∈ ["p".toList, "app".toList], IsName name) ∧
    (∀ letter : Char, letter.isAlpha = true →
      ["p".toList, "app".toList].head? ≠ some [letter, ':']) ∧
    isAbsolute "file:../shared\\x.fidl" = false ∧
    resolve "file:../shared\\x.fidl" "/p/app" = "/p/shared/x.fidl" ∧
    isAbsolute "FILE://C:\\..//q/./x.fidl" = true ∧
    ¬ IsBareDrive (plain "FILE://C:\\..//q/./x.fidl".toList) ∧
    resolve "FILE://C:\\..//q/./x.fidl" "lib" = "/q/x.fidl" := by
  have hbase : ∀ name ∈ ["p".toList, "app".toList], IsName name := by decide
  have hdrive : ∀ letter : Char, letter.isAlpha = true →
      ["p".toList, "app".toList].head? ≠ some [letter, ':'] := by
    intro letter _ heq
    exact absurd (List.cons.inj (Option.some.inj heq)).2 (by decide)
  have hrelative : isAbsolute "file:../shared\\x.fidl" = false := by decide +kernel
  have habsolute : isAbsolute "FILE://C:\\..//q/./x.fidl" = true := by decide +kernel
  have hbare : ¬ IsBareDrive (plain "FILE://C:\\..//q/./x.fidl".toList) := by
    rw [isBareDrive_iff]
    decide +kernel
  have hshared := (resolve_walks_segments _ hbase hdrive _).1 hrelative
  have hother := (resolve_walks_segments _ hbase hdrive _).2 habsolute hbare "lib"
  refine ⟨hbase, hdrive, hrelative, hshared.trans ?_, habsolute, hbare, hother.trans ?_⟩
  · decide +kernel
  · decide +kernel

end FrancaLint.Path
