import FrancaLint.Disk.FileTree
import FrancaLint.Disk.SettingsFile
import FrancaLint.Proofs.Json.LineEnds
import FrancaLint.Proofs.Text.Encoding
import Mathlib.Algebra.Order.Field.Power
import Mathlib.Data.Rat.Cast.Order
import Mathlib.Tactic.NormNum
import Mathlib.Tactic.Positivity

/-! # What settings files hold

A file that can be read holds settings exactly if its bytes are a text in UTF-8, the text is a JSON
object, and the fields of the object are those of settings. Everything else is reported as a fault
of the configuration, apart from bytes that are no text and from texts beyond the limits of the
reader.

* `Json.roundsToZero_iff`: which numbers count as zero.
* `Settings.AreHeldBy`: what the fields of an object have to be, with the defaults.
* `Settings.ofFields_eq_ok_iff`: the settings of an object are those that its fields hold.
* `settings_of_readable_file`: which files hold which settings, and which faults are not
  reported. -/

namespace FrancaLint

/-! ## Zero -/

namespace Json

/-- A decimal fraction is compared with a binary one by shifting both points away. -/
theorem mul_zpow_neg_le_iff (mantissa : Int) (shift bits : Nat) :
    |(mantissa : ℚ)| * 10 ^ (-(shift : Int)) ≤ 2 ^ (-(bits : Int)) ↔
      mantissa.natAbs <<< bits ≤ Nat.pow 10 shift := by
  rw [zpow_neg, zpow_neg, zpow_natCast, zpow_natCast, ← div_eq_mul_inv,
    div_le_iff₀ (by positivity), inv_mul_eq_div, le_div_iff₀ (by positivity), ← Int.cast_abs,
    Int.abs_eq_natAbs, Nat.shiftLeft_eq, Nat.pow_eq]
  norm_cast

/-- A number of few digits is small enough even with the bits in front of the point. -/
theorem shiftLeft_le_pow {n shift bits zeros : Nat} (hbits : 2 ^ bits ≤ 10 ^ zeros)
    (h : (Nat.toDigits 10 n).length + zeros ≤ shift) : n <<< bits ≤ Nat.pow 10 shift := by
  have hlt := (Nat.length_toDigits_le_iff (b := 10) (by decide) Nat.length_toDigits_pos).mp
    (le_refl (Nat.toDigits 10 n).length)
  rw [Nat.shiftLeft_eq]
  calc n * 2 ^ bits
      ≤ 10 ^ (Nat.toDigits 10 n).length * 10 ^ zeros := Nat.mul_le_mul hlt.le hbits
    _ = 10 ^ ((Nat.toDigits 10 n).length + zeros) := (Nat.pow_add ..).symm
    _ ≤ 10 ^ shift := Nat.pow_le_pow_right (by decide) h

/-- A number rounds to zero if it is at most half of the least double above zero. -/
theorem roundsToZero_iff (mantissa exponent : Int) : roundsToZero mantissa exponent = true ↔
    |(mantissa : ℚ)| * 10 ^ exponent ≤ 2 ^ (-1075 : Int) := by
  unfold roundsToZero
  by_cases hzero : mantissa = 0
  · rw [if_pos hzero, hzero, Int.cast_zero, abs_zero, zero_mul]
    exact iff_of_true rfl (by positivity)
  rw [if_neg hzero]
  have hone : (1 : ℚ) ≤ |(mantissa : ℚ)| := by exact_mod_cast Int.one_le_abs hzero
  by_cases hexponent : 0 ≤ exponent
  · rw [if_pos hexponent]
    -- a number without fraction is too large
    refine iff_of_false Bool.false_ne_true (not_le.mpr ?_)
    calc (2 : ℚ) ^ (-1075 : Int) < 1 := zpow_lt_one_of_neg₀ one_lt_two (by decide)
      _ ≤ 10 ^ exponent := one_le_zpow₀ (by norm_num) hexponent
      _ ≤ |(mantissa : ℚ)| * 10 ^ exponent := le_mul_of_one_le_left (by positivity) hone
  · rw [if_neg hexponent]
    obtain ⟨shift, rfl⟩ : ∃ shift : Nat, exponent = -shift := ⟨(-exponent).toNat, by omega⟩
    have hbits : 2 ^ 1075 ≤ 10 ^ 324 := by decide +kernel
    have hshift := mul_zpow_neg_le_iff mantissa shift 1075
    simp only [neg_neg, Int.toNat_natCast, Bool.or_eq_true, decide_eq_true_eq]
    -- counting the digits decides nothing that shifting would not
    rw [or_iff_right_of_imp (shiftLeft_le_pow hbits)]
    exact hshift.symm

/-- The value **counts as zero**: a number that is zero or too small for a double, or `false`. -/
def CountsAsZero : Json → Prop
  | integer n => n = 0
  | decimal mantissa exponent => |(mantissa : ℚ)| * 10 ^ exponent ≤ 2 ^ (-1075 : Int)
  | bool b => b = false
  | _ => False

/-- What equals the number zero counts as zero. -/
theorem isZero_iff (value : Json) : value.isZero = true ↔ value.CountsAsZero := by
  cases value with
  | decimal mantissa exponent => exact roundsToZero_iff mantissa exponent
  | bool b => simp [isZero, CountsAsZero]
  | integer n => simp [isZero, CountsAsZero]
  | _ => simp [isZero, CountsAsZero]

/-- The defect is a **limit** of the reader: the text may well be JSON. -/
def Defect.IsLimit : Defect → Prop
  | tooManyDigits _ => True
  | tooDeep _ => True
  | _ => False

end Json

/-! ## Fields -/

/-- An answer that takes two steps is a value if both steps are. -/
theorem bind_eq_ok_iff {ε α β : Type} {answer : Except ε α} {next : α → Except ε β} {b : β} :
    (answer >>= next) = .ok b ↔ ∃ a, answer = .ok a ∧ next a = .ok b := by
  cases answer <;> simp [bind, Except.bind]

namespace Settings

/-- The **setting** of a key is the value that stands there, or the default if the key is
missing. -/
def IsSetting {α : Type} (fields : List (String × Json)) (key : String) (kind : α → Json)
    (default value : α) : Prop :=
  Json.field? fields key = some (kind value) ∨ Json.field? fields key = none ∧ value = default

variable {fields : List (String × Json)} {key : String}

/-- A truth value is read exactly if it is the setting. -/
theorem boolean_eq_ok_iff {default value : Bool} :
    boolean fields key default = .ok value ↔ IsSetting fields key .bool default value := by
  unfold boolean IsSetting
  cases Json.field? fields key with
  | none => simp [eq_comm]
  | some found => cases found <;> simp

/-- A text is read exactly if it is the setting. -/
theorem textValue_eq_ok_iff {default value : String} :
    textValue fields key default = .ok value ↔ IsSetting fields key .string default value := by
  unfold textValue IsSetting
  cases Json.field? fields key with
  | none => simp [eq_comm]
  | some found => cases found <;> simp

/-- Values are texts exactly if they are the values of texts. -/
theorem texts?_eq_some_iff {items : List Json} {texts : List String} :
    texts? items = some texts ↔ items = texts.map .string := by
  fun_induction texts? items generalizing texts with
  | case1 => cases texts <;> simp
  | case2 text rest ih =>
    rw [Option.map_eq_some_iff]
    constructor
    · rintro ⟨others, hothers, rfl⟩
      rw [ih.mp hothers, List.map_cons]
    · intro h
      cases texts with
      | nil => cases h
      | cons first others =>
        obtain ⟨htext, hrest⟩ := List.cons.inj h
        exact ⟨others, ih.mpr hrest, by rw [Json.string.inj htext]⟩
  | case3 items hnil hcons =>
    refine iff_of_false (by simp) ?_
    rintro rfl
    cases texts with
    | nil => exact hnil rfl
    | cons first others => exact hcons first _ rfl

/-- A list of texts is read exactly if it is the setting. -/
theorem textValues_eq_ok_iff {default values : List String} :
    textValues fields key default = .ok values ↔
      IsSetting fields key (fun texts => .array (texts.map .string)) default values := by
  unfold textValues IsSetting
  cases Json.field? fields key with
  | none => simp [eq_comm]
  | some found =>
    cases found with
    | array items =>
      simp only [Option.some.injEq, Json.array.injEq, reduceCtorEq, false_and, or_false]
      rw [← texts?_eq_some_iff]
      cases texts? items <;> simp
    | _ => simp

/-- Fields **hold** settings: they have the format and the version of settings, and each setting is
the value of its key, or the default. Other keys do not matter. -/
structure AreHeldBy (settings : Settings) (fields : List (String × Json)) : Prop where
  /-- The format is that of settings files. -/
  format : Json.field? fields "format" = some (.string Settings.format)
  /-- The version is zero. -/
  version : ∃ value, Json.field? fields "version" = some value ∧ value.CountsAsZero
  /-- The checker is enabled. -/
  enabled : IsSetting fields "enabled" .bool true settings.enabled
  /-- The whole project is indexed. -/
  wholeProject : IsSetting fields "whole_project" .bool false settings.wholeProject
  /-- Collisions are looked for. -/
  collisionCheck :
    IsSetting fields "package_collision_check" .bool true settings.collisionCheck
  /-- Elements of the same name are looked for. -/
  sameNameCheck : IsSetting fields "same_name_check" .bool true settings.sameNameCheck
  /-- The text in front of messages. -/
  messageLead : IsSetting fields "message_prefix" .string "" settings.messageLead
  /-- The directories that are skipped. -/
  skippedDirectories : IsSetting fields "skip_dirs" (fun texts => .array (texts.map .string))
    ["bin"] settings.skippedDirectories

/-- The format and the version are those of settings. -/
theorem isSupported_iff : isSupported fields = true ↔
    Json.field? fields "format" = some (.string format) ∧
      ∃ value, Json.field? fields "version" = some value ∧ value.CountsAsZero := by
  unfold isSupported
  rw [Bool.and_eq_true]
  refine and_congr ?_ ?_
  · cases Json.field? fields "format" with
    | none => simp
    | some found => cases found <;> simp
  · cases Json.field? fields "version" with
    | none => simp
    | some found => simp [Json.isZero_iff]

/-- The settings in the fields of an object are those that the fields hold. -/
theorem ofFields_eq_ok_iff {settings : Settings} :
    ofFields fields = .ok settings ↔ settings.AreHeldBy fields := by
  unfold ofFields
  by_cases hsupported : isSupported fields = true
  · obtain ⟨hformat, hversion⟩ := isSupported_iff.mp hsupported
    simp only [hsupported, Bool.not_true, Bool.false_eq_true, if_false, bind_eq_ok_iff,
      boolean_eq_ok_iff, textValue_eq_ok_iff, textValues_eq_ok_iff]
    constructor
    · rintro ⟨_, henabled, _, hproject, _, hcollision, _, hname, _, hlead, _, hskipped, hreturn⟩
      cases hreturn
      exact ⟨hformat, hversion, henabled, hproject, hcollision, hname, hlead, hskipped⟩
    · rintro ⟨-, -, henabled, hproject, hcollision, hname, hlead, hskipped⟩
      exact ⟨_, henabled, _, hproject, _, hcollision, _, hname, _, hlead, _, hskipped, rfl⟩
  · refine iff_of_false ?_ fun h => hsupported (isSupported_iff.mpr ⟨h.format, h.version⟩)
    simp [hsupported, throw, throwThe, MonadExceptOf.throw, bind, Except.bind]

end Settings

/-! ## Files -/

namespace SettingsFile

variable {path text : String} {depth : Nat} {settings : Settings}

/-- A text holds settings if it is an object whose fields hold them. -/
theorem ofText_eq_ok_iff : ofText path text depth = .ok settings ↔
    ∃ fields, Json.read text depth = .ok (.object fields) ∧ settings.AreHeldBy fields := by
  unfold ofText
  cases Json.read text depth with
  | error fault =>
    obtain ⟨defect, line⟩ := fault
    cases defect <;> simp
  | ok value =>
    cases value with
    | object fields =>
      simp only [Except.ok.injEq, Json.object.injEq, Json.mapError_eq_ok_iff,
        Settings.ofFields_eq_ok_iff, exists_eq_left']
    | _ => simp

/-- A text without settings is reported, unless it is beyond a limit of the reader. -/
theorem exists_unreported_ofText_iff :
    (∃ fault, ofText path text depth = .error fault ∧ fault.isReported = false) ↔
      ∃ defect line, Json.read text depth = .error (defect, line) ∧ defect.IsLimit := by
  unfold ofText
  cases Json.read text depth with
  | error fault =>
    obtain ⟨defect, line⟩ := fault
    cases defect <;> simp [SettingsFileFault.isReported, Json.Defect.IsLimit]
  | ok value =>
    cases value with
    | object fields =>
      simp [Json.mapError_eq_error_iff, SettingsFileFault.isReported]
    | _ => simp [SettingsFileFault.isReported]

/-- The bytes of a file hold settings if they are a text that does. -/
theorem ofBytes_eq_ok_iff {bytes : List UInt8} : ofBytes path bytes depth = .ok settings ↔
    ∃ text fields, bytes = utf8Bytes text ∧ Json.read text depth = .ok (.object fields) ∧
      settings.AreHeldBy fields := by
  unfold ofBytes
  constructor
  · intro h
    split at h
    · cases h
    next text hdecode =>
    obtain ⟨fields, hread, hfields⟩ := ofText_eq_ok_iff.mp h
    exact ⟨text, fields, decode_utf8_eq_ok_iff.mp hdecode,
      Json.read_unifyLineEnds_eq_ok_iff.mp hread, hfields⟩
  · rintro ⟨text, fields, hbytes, hread, hfields⟩
    simp only [decode_utf8_eq_ok_iff.mpr hbytes]
    exact ofText_eq_ok_iff.mpr ⟨fields, Json.read_unifyLineEnds_eq_ok_iff.mpr hread, hfields⟩

/-- Bytes without settings are reported, unless they are no text or a text beyond a limit. -/
theorem exists_unreported_ofBytes_iff {bytes : List UInt8} :
    (∃ fault, ofBytes path bytes depth = .error fault ∧ fault.isReported = false) ↔
      (∀ text, bytes ≠ utf8Bytes text) ∨
        ∃ text defect line, bytes = utf8Bytes text ∧ Json.read text depth = .error (defect, line) ∧
          defect.IsLimit := by
  unfold ofBytes
  cases hdecode : Encoding.utf8.decode bytes with
  | error fault =>
    refine iff_of_true ⟨_, rfl, rfl⟩ (.inl fun text hbytes => ?_)
    rw [decode_utf8_eq_ok_iff.mpr hbytes] at hdecode
    cases hdecode
  | ok text =>
    have hbytes := decode_utf8_eq_ok_iff.mp hdecode
    have hlimit : (∃ defect line, Json.read (String.ofList (unifyLineEnds text.toList))
        depth = .error (defect, line) ∧ defect.IsLimit) ↔
          ∃ defect line, Json.read text depth = .error (defect, line) ∧ defect.IsLimit := by
      simp only [exists_and_right, Json.exists_read_unifyLineEnds_eq_error_iff]
    rw [exists_unreported_ofText_iff, hlimit]
    constructor
    · rintro ⟨defect, line, hread, hdefect⟩
      exact .inr ⟨text, defect, line, hbytes, hread, hdefect⟩
    · rintro (hnone | ⟨other, defect, line, hother, hread, hdefect⟩)
      · exact absurd hbytes (hnone text)
      · rw [← decode_utf8_eq_ok_iff, hdecode] at hother
        cases hother
        exact ⟨defect, line, hread, hdefect⟩

/-- A file that can be read is judged by its bytes. -/
theorem load_of_read {fs : FileSystem Id} {bytes : List UInt8}
    (hread : (fs.read path).run = .ok bytes) :
    (load fs path depth).run = ofBytes path bytes depth := by
  rw [load, Id.run_bind, hread]
  rfl

end SettingsFile

/-- **Which files hold settings.** A file that can be read holds settings exactly if its bytes are a
text in UTF-8 of a JSON object whose fields hold them. Any other file is reported as a fault of the
configuration, unless its bytes are no text in UTF-8, or the reader meets one of its limits,
whatever depth its caller leaves to it. -/
theorem settings_of_readable_file {fs : FileSystem Id} {path : String} {bytes : List UInt8}
    (hread : (fs.read path).run = .ok bytes) (depth : Nat) :
    (∀ settings, (SettingsFile.load fs path depth).run = .ok settings ↔
      ∃ text fields, bytes = utf8Bytes text ∧ Json.read text depth = .ok (.object fields) ∧
        settings.AreHeldBy fields) ∧
    ((∃ fault, (SettingsFile.load fs path depth).run = .error fault ∧ fault.isReported = false) ↔
      (∀ text, bytes ≠ utf8Bytes text) ∨
        ∃ text defect line, bytes = utf8Bytes text ∧ Json.read text depth = .error (defect, line) ∧
          defect.IsLimit) := by
  rw [SettingsFile.load_of_read hread]
  exact ⟨fun settings => SettingsFile.ofBytes_eq_ok_iff,
    SettingsFile.exists_unreported_ofBytes_iff⟩

/-- The text of a file with settings. -/
def drawerText : String :=
  "\x7b\"format\": \"fidlcheck-config\",\r\n\"version\": 0, \"skip_dirs\": []\x7d"

/-- A file with settings, one that is not in UTF-8, and one with the version `false`. -/
def drawer : FileSystem Id :=
  ({ workingPlace := ["p"], directories := [["p"]],
     files := [
      (["p", "a.json"], ⟨utf8Bytes drawerText, 0⟩),
      (["p", "b.json"], ⟨[0xFF], 0⟩),
      (["p", "c.json"],
        ⟨utf8Bytes "\x7b\"format\": \"fidlcheck-config\", \"version\": false\x7d", 0⟩)] } :
    FileTree).fileSystem

/-- The first file holds settings, and the second one is no text. -/
theorem settings_drawer :
    ((drawer.read "a.json").run = .ok (utf8Bytes drawerText) ∧
      ∃ text fields, utf8Bytes drawerText = utf8Bytes text ∧
        Json.read text = .ok (.object fields) ∧
          Settings.AreHeldBy { skippedDirectories := [] } fields) ∧
    (drawer.read "b.json").run = .ok [0xFF] ∧ ∃ fault,
      (SettingsFile.load drawer "b.json").run = .error fault ∧ fault.isReported = false := by
  have hread : (drawer.read "a.json").run = .ok (utf8Bytes drawerText) := by decide +kernel
  have hload : (SettingsFile.load drawer "a.json").run = .ok { skippedDirectories := [] } := by
    decide +kernel
  have hother : (drawer.read "b.json").run = .ok [0xFF] := by decide +kernel
  have hdecode : ∃ fault, Encoding.utf8.decode [0xFF] = .error fault :=
    ⟨⟨.utf8, 0xFF, 0, 1, .badStart⟩, by decide +kernel⟩
  refine ⟨⟨hread, ((settings_of_readable_file hread Json.maxDepth).1 _).mp hload⟩, hother,
    (settings_of_readable_file hother Json.maxDepth).2.mpr (.inl fun text hbytes => ?_)⟩
  obtain ⟨fault, hfault⟩ := hdecode
  rw [decode_utf8_eq_ok_iff.mpr hbytes] at hfault
  cases hfault

/-- Bytes that are no text are not reported as a fault of the configuration, and `false` passes for
the version. -/
theorem unreported_drawer :
    (drawer.read "b.json").run = .ok [0xFF] ∧
    (SettingsFile.load drawer "b.json").run =
      .error (.undecodable ⟨.utf8, 0xFF, 0, 1, .badStart⟩) ∧
    (SettingsFileFault.undecodable ⟨.utf8, 0xFF, 0, 1, .badStart⟩).isReported = false ∧
    (SettingsFile.load drawer "c.json").run = .ok {} := by
  decide +kernel

end FrancaLint
