/-
CartridgeAudit/Proofs/Rule/VersionGrammar.lean

Which versions the format of the version lets through.

A release is written `YY.N.N`: the two digits of the year, the version of the
partner within the year, from one on, and the bugfix (`IsRelease`).  The rule
splits the version at its points and reads three numbers.  A number is read from
digits of the basic alphabet, with or without a plus sign in front, if its value
fits a word (`word?_eq_some_iff`), and the year is compared by its value.  So

* what is accepted is what is read as three numbers of which the first is the year
  and the second is at least one (`versionIssues_eq_nil_iff`);
* the releases are the accepted versions without a plus sign whose first part has
  two characters (`isRelease_iff`), and there are others: `+26.1.0` and `026.1.0`.

A version that is not read as three numbers has one issue, at its beginning
(`versionIssues_of_not_isRead`).  In one that is, the year is reported at the
beginning and the version of the partner where its number begins
(`versionIssues_of_isMadeOf`, `seek_release`).

Main result: `versionFormat_reports`.
-/
import CartridgeAudit.Proofs.Document.Contents
import CartridgeAudit.Proofs.Rule.ProjectFindings
import CartridgeAudit.Proofs.Rule.PxSizes

namespace CartridgeAudit.Rule

open ProjectRule

/-! ### Numbers -/

/-- The value of digits. -/
def valueOf (t : Text) : Nat := Nat.ofDigits 10 (t.reverse.map digitValue)

/-- A text writes a number that fits a word, in digits of the basic alphabet. -/
structure Writes (t : Text) (n : Nat) : Prop where
  isNumeral : Document.IsNumeral t
  value : valueOf t = n
  fits : n < Text.wordLimit

/-- A number is read from its digits, and from a plus sign and its digits. -/
def ReadsAs (t : Text) (n : Nat) : Prop :=
  ∃ digits, Writes digits n ∧ (t = digits ∨ t = '+' :: digits)

section

variable {s t digits : Text} {n value : Nat}

theorem isDigit_of_digitsFrom (h : Text.digitsFrom value s = some n) :
    ∀ x ∈ s, x.isDigit = true := by
  induction s generalizing value with
  | nil => exact List.forall_mem_nil _
  | cons x s ih =>
    rw [Text.digitsFrom] at h
    split at h
    · next hx => exact List.forall_mem_cons.2 ⟨hx, ih h⟩
    · cases h

theorem digits?_eq_some_iff : Text.digits? t = some n ↔ Document.IsNumeral t ∧ valueOf t = n := by
  constructor
  · intro h
    have hnumeral : Document.IsNumeral t := by
      cases t with
      | nil => cases h
      | cons x xs => exact ⟨List.cons_ne_nil x xs, isDigit_of_digitsFrom h⟩
    have hvalue := digits?_eq hnumeral.isDigit hnumeral.ne_nil
    exact ⟨hnumeral, Option.some.inj (hvalue.symm.trans h)⟩
  · rintro ⟨hnumeral, rfl⟩
    exact digits?_eq hnumeral.isDigit hnumeral.ne_nil

theorem digits?_filter_eq_some_iff :
    (Text.digits? t).filter (· < Text.wordLimit) = some n ↔ Writes t n := by
  rw [Option.filter_eq_some_iff, digits?_eq_some_iff, decide_eq_true_eq]
  exact ⟨fun h => ⟨h.1.1, h.1.2, h.2⟩, fun h => ⟨⟨h.isNumeral, h.value⟩, h.fits⟩⟩

theorem Writes.not_mem (h : Writes t n) {x : Char} (hx : x.isDigit = false) : x ∉ t :=
  fun hmem => Bool.false_ne_true (hx.symm.trans (h.isNumeral.isDigit x hmem))

/-- **What is read as a number**, a plus sign in front of it included. -/
theorem word?_eq_some_iff : Text.word? t = some n ↔ ReadsAs t n := by
  unfold Text.word?
  split
  · next rest =>
    rw [digits?_filter_eq_some_iff]
    constructor
    · exact fun h => ⟨rest, h, .inr rfl⟩
    · rintro ⟨digits, h, rfl | hcons⟩
      · exact absurd List.mem_cons_self (h.not_mem (x := '+') (by decide))
      · rwa [(List.cons.inj hcons).2]
  · next hsigned =>
    rw [digits?_filter_eq_some_iff]
    constructor
    · exact fun h => ⟨t, h, .inl rfl⟩
    · rintro ⟨digits, h, rfl | rfl⟩
      · exact h
      · exact absurd rfl (hsigned digits)

theorem Writes.readsAs (h : Writes t n) : ReadsAs t n := ⟨t, h, .inl rfl⟩

theorem ReadsAs.not_mem_point (h : ReadsAs t n) : '.' ∉ t := by
  obtain ⟨digits, hdigits, rfl | rfl⟩ := h
  · exact hdigits.not_mem (by decide)
  · exact List.not_mem_cons_of_ne_of_not_mem (by decide) (hdigits.not_mem (by decide))

theorem ReadsAs.ne_nil (h : ReadsAs t n) : t ≠ [] := by
  obtain ⟨digits, hdigits, rfl | rfl⟩ := h
  · exact hdigits.isNumeral.ne_nil
  · exact List.cons_ne_nil _ _

/-- Without a plus sign nothing but digits is read. -/
theorem ReadsAs.writes (h : ReadsAs t n) (hplus : '+' ∉ t) : Writes t n := by
  obtain ⟨digits, hdigits, rfl | rfl⟩ := h
  · exact hdigits
  · exact absurd List.mem_cons_self hplus

end

/-! ### Versions -/

/-- A version is made of three numbers, with points between them. -/
structure IsMadeOf (number : Text → Nat → Prop) (version a b c : Text) (y r f : Nat) : Prop where
  parts : version = a ++ '.' :: (b ++ '.' :: c)
  year : number a y
  release : number b r
  bugfix : number c f

/-- A version that is read as three numbers. -/
def IsRead (version : Text) : Prop := ∃ a b c y r f, IsMadeOf ReadsAs version a b c y r f

/-- The version of a release of a year: the two digits of the year, the version of
the partner within the year, which is at least one, and the bugfix. -/
def IsRelease (year : Int) (version : Text) : Prop :=
  ∃ a b c y r f, IsMadeOf Writes version a b c y r f ∧ a.length = 2 ∧ year = 2000 + y ∧ 1 ≤ r

/-- A version that is read as three numbers, the first of which is the year and the
second at least one. -/
def IsAccepted (year : Int) (version : Text) : Prop :=
  ∃ a b c y r f, IsMadeOf ReadsAs version a b c y r f ∧ year = 2000 + y ∧ 1 ≤ r

variable {year : Int} {version a b c : Text} {y r f : Nat}

theorem splitOn_eq_of_parts (ha : '.' ∉ a) (hb : '.' ∉ b) (hc : '.' ∉ c) :
    Text.splitOn (· == '.') (a ++ '.' :: (b ++ '.' :: c)) = [a, b, c] := by
  have hno : ∀ {t : Text}, '.' ∉ t → ∀ x ∈ t, (x == '.') = false := by
    rintro t ht x hx
    exact beq_false_of_ne (ne_of_mem_of_not_mem hx ht)
  rw [Text.splitOn_eq_splitOnP, List.splitOnP_append_cons_of_forall_mem (hno ha) '.' (by rfl),
    List.splitOnP_append_cons_of_forall_mem (hno hb) '.' (by rfl),
    List.splitOnP_eq_singleton (hno hc)]

theorem eq_of_splitOn_eq (h : Text.splitOn (· == '.') version = [a, b, c]) :
    version = a ++ '.' :: (b ++ '.' :: c) := by
  have hjoin : ['.'].intercalate (List.splitOn '.' version) = version :=
    List.intercalate_splitOn '.'
  rw [List.splitOn_eq_splitOnP, ← Text.splitOn_eq_splitOnP, h] at hjoin
  simpa [List.intercalate, List.intersperse] using hjoin.symm

theorem IsMadeOf.splitOn_eq (h : IsMadeOf ReadsAs version a b c y r f) :
    Text.splitOn (· == '.') version = [a, b, c] := by
  rw [h.parts]
  exact splitOn_eq_of_parts h.year.not_mem_point h.release.not_mem_point h.bugfix.not_mem_point

theorem IsMadeOf.readsAs (h : IsMadeOf Writes version a b c y r f) :
    IsMadeOf ReadsAs version a b c y r f :=
  ⟨h.parts, h.year.readsAs, h.release.readsAs, h.bugfix.readsAs⟩

/-- The first part of a version is what stands before its first point. -/
theorem IsMadeOf.takeWhile_eq (h : IsMadeOf ReadsAs version a b c y r f) :
    version.takeWhile (· ≠ '.') = a := by
  rw [h.parts, List.takeWhile_append_of_pos, List.takeWhile_cons_of_neg (by simp), List.append_nil]
  intro x hx
  simpa using ne_of_mem_of_not_mem hx h.year.not_mem_point

/-! ### Issues -/

/-- What is said about a version that is not read. -/
def formatIssue (version : Text) : Text × Nat :=
  ("version ".toList ++ version ++ " is expected to be in YY.N.N format".toList, 0)

/-- What is said about a version of another year. -/
def yearIssue (year : Int) (version : Text) : Text × Nat :=
  ("version ".toList ++ version ++ (s!" should start with the current year {year - 2000}," ++
    " even if certification was submitted in the previous one").toList, 0)

/-- What is said about a version that counts the releases of the year from zero. -/
def releaseIssue (version a : Text) : Text × Nat :=
  ("partner version of the year in ".toList ++ version ++ " should be at least 1".toList,
    Text.byteLength a + 1)

/-- **What is wrong with a version that is read**: its year and its number within
the year are looked at, each by itself. -/
theorem versionIssues_of_isMadeOf (h : IsMadeOf ReadsAs version a b c y r f) :
    versionIssues (year - 2000) version =
      (if year = 2000 + y then [] else [yearIssue year version]) ++
        if 1 ≤ r then [] else [releaseIssue version a] := by
  have hyear : ((y : Int) = year - 2000) = (year = 2000 + y) := propext (by omega)
  have hnumbers : [a, b, c].map Text.word? = [some y, some r, some f] := by
    simp [word?_eq_some_iff.2 h.year, word?_eq_some_iff.2 h.release, word?_eq_some_iff.2 h.bugfix]
  rw [versionIssues, h.splitOn_eq, hnumbers]
  dsimp only
  rw [if_congr (iff_of_eq hyear) rfl rfl]
  congr 1
  by_cases hr : r = 0
  · rw [if_pos hr, if_neg (by omega)]
    rfl
  · rw [if_neg hr, if_pos (by omega)]

/-- **What is wrong with a version that is not read** is its format. -/
theorem versionIssues_of_not_isRead (h : ¬ IsRead version) :
    versionIssues (year - 2000) version = [formatIssue version] := by
  rw [versionIssues]
  split
  · next y r f heq =>
    obtain ⟨a, parts, hparts, ha, heq⟩ := List.map_eq_cons_iff.1 heq
    obtain ⟨b, parts, rfl, hb, heq⟩ := List.map_eq_cons_iff.1 heq
    obtain ⟨c, parts, rfl, hc, heq⟩ := List.map_eq_cons_iff.1 heq
    obtain rfl := List.map_eq_nil_iff.1 heq
    exact absurd ⟨a, b, c, y, r, f, eq_of_splitOn_eq hparts, word?_eq_some_iff.1 ha,
      word?_eq_some_iff.1 hb, word?_eq_some_iff.1 hc⟩ h
  · rfl

/-- Nothing is wrong with a version if and only if it is accepted. -/
theorem versionIssues_eq_nil_iff :
    versionIssues (year - 2000) version = [] ↔ IsAccepted year version := by
  constructor
  · intro hnil
    by_cases hread : IsRead version
    · obtain ⟨a, b, c, y, r, f, h⟩ := hread
      rw [versionIssues_of_isMadeOf h, List.append_eq_nil_iff] at hnil
      exact ⟨a, b, c, y, r, f, h, by simpa using hnil.1,
        Nat.one_le_iff_ne_zero.2 (by simpa using hnil.2)⟩
    · rw [versionIssues_of_not_isRead hread] at hnil
      cases hnil
  · rintro ⟨a, b, c, y, r, f, h, hyear, hr⟩
    rw [versionIssues_of_isMadeOf h, if_pos hyear, if_pos hr]
    rfl

/-- A release is accepted, and an accepted version is a release if there is no plus
sign in it and its year has two characters. -/
theorem isRelease_iff :
    IsRelease year version ↔ IsAccepted year version ∧ '+' ∉ version ∧
      (version.takeWhile (· ≠ '.')).length = 2 := by
  constructor
  · rintro ⟨a, b, c, y, r, f, h, htwo, hyear, hr⟩
    refine ⟨⟨a, b, c, y, r, f, h.readsAs, hyear, hr⟩, ?_, h.readsAs.takeWhile_eq ▸ htwo⟩
    have ha := h.year.not_mem (x := '+') (by decide)
    have hb := h.release.not_mem (x := '+') (by decide)
    have hc := h.bugfix.not_mem (x := '+') (by decide)
    simp [h.parts, ha, hb, hc]
  · rintro ⟨⟨a, b, c, y, r, f, h, hyear, hr⟩, hplus, htwo⟩
    rw [h.takeWhile_eq] at htwo
    obtain ⟨ha, hb, hc⟩ : '+' ∉ a ∧ '+' ∉ b ∧ '+' ∉ c := by simpa [h.parts] using hplus
    exact ⟨a, b, c, y, r, f, ⟨h.parts, h.year.writes ha, h.release.writes hb, h.bugfix.writes hc⟩,
      htwo, hyear, hr⟩

/-- The version of the partner is reported where its number begins. -/
theorem seek_release (h : IsMadeOf ReadsAs version a b c y r f) :
    Text.seek version (releaseIssue version a).2 = some ⟨'.' :: a.reverse, b ++ '.' :: c⟩ := by
  have hseek := Text.seek_offset ⟨'.' :: a.reverse, b ++ '.' :: c⟩
  have htext : Cursor.text ⟨'.' :: a.reverse, b ++ '.' :: c⟩ = version := by
    simp [Cursor.text, h.parts]
  have hoffset : Cursor.offset ⟨'.' :: a.reverse, b ++ '.' :: c⟩ = (releaseIssue version a).2 := by
    show '.'.utf8Size + Text.byteLength a.reverse = Text.byteLength a + 1
    rw [Text.byteLength_reverse, Nat.add_comm]
    rfl
  rwa [htext, hoffset] at hseek

/-! ### The rule -/

/-- **What the format of the version reports.**  The version is audited as a file of
its own, and kept if something is wrong with it: nothing if it is accepted, one thing
if it is not read, and otherwise the year, at the beginning, and the version of the
partner, at its number.  Of the accepted versions those are releases that have no
plus sign and a year of two characters. -/
theorem versionFormat_reports (year : Int) (v : ProjectView) (s : Session) {version : Text}
    (h : configuredVersion v.settings = .ok version) :
    ∃ issues found s', ((versionFormat year).check v s).Gives (.ok s') ∧
      s'.filesChecked = s.filesChecked + 1 ∧
      List.Forall₂ (fun (i : Text × Nat) w => Violation.Marks w i.1 i.2) issues found ∧
      s'.failed = s.failed ++ (if issues = [] then [] else
        [⟨.ofText (v.corpus.root.join ⟨"project.cartridge_version"⟩) version, found⟩]) ∧
      (issues = [] ↔ IsAccepted year version) ∧
      (IsRelease year version ↔
        issues = [] ∧ '+' ∉ version ∧ (version.takeWhile (· ≠ '.')).length = 2) ∧
      (¬ IsRead version → issues = [formatIssue version]) ∧
      ∀ a b c y r f, IsMadeOf ReadsAs version a b c y r f →
        issues = (if year = 2000 + y then [] else [yearIssue year version]) ++
          (if 1 ≤ r then [] else [releaseIssue version a]) ∧
        b ≠ [] ∧
        Text.seek version (releaseIssue version a).2 = some ⟨'.' :: a.reverse, b ++ '.' :: c⟩ := by
  let file : SourceFile := .ofText (v.corpus.root.join ⟨"project.cartridge_version"⟩) version
  let issues := versionIssues (year - 2000) version
  obtain ⟨found, hfound, hmarks⟩ := Violation.exists_mapM_new (fun i : Text × Nat => i.2)
    (ne_nil_of_mem_versionIssues (year - 2000) version)
  refine ⟨issues, found, ((s.select file).extend found).save, ?gives, ?checked, hmarks, ?failed,
    versionIssues_eq_nil_iff, ?release, versionIssues_of_not_isRead, ?read⟩
  case gives =>
    intro notices
    show (configuredVersion v.settings >>= fun version =>
      auditFile s (.ofText _ version) (versionIssues (year - 2000) version)) = _
    rw [h]
    exact (auditFile_eq s file issues).trans (congrArg _ hfound)
  case checked => exact s.filesChecked_save_extend file found
  case failed =>
    have hnil : found = [] ↔ issues = [] := by
      rw [← List.length_eq_zero_iff, ← hmarks.length_eq, List.length_eq_zero_iff]
    rw [Session.failed_save_extend]
    simp only [hnil, file]
  case release => rw [isRelease_iff, ← versionIssues_eq_nil_iff]
  case read =>
    intro a b c y r f hmade
    exact ⟨versionIssues_of_isMadeOf hmade, hmade.release.ne_nil, seek_release hmade⟩

/-- A project in which a version is configured, and nothing else. -/
def versioned (version : String) : ProjectView where
  corpus := ⟨⟨.directory [], ⟨"/"⟩⟩, ⟨"/"⟩, false, [], ⟨[]⟩⟩
  settings := { Settings.standard with
    project := { Settings.standardProject with cartridgeVersion := some version } }
  documents? := none

/-- The first version of a year is reported at its second number if it is counted
from zero. -/
theorem versionFormat_reports_zero :
    configuredVersion (versioned "26.0.4").settings = .ok "26.0.4".toList ∧
      ∃ s', ((versionFormat 2026).check (versioned "26.0.4") (.new "Versions")).Gives (.ok s') ∧
        s'.failed = [⟨.ofText ⟨"/project.cartridge_version"⟩ "26.0.4".toList,
          [⟨"partner version of the year in 26.0.4 should be at least 1".toList, 3, none,
            by decide⟩]⟩] := by
  have hversion : configuredVersion (versioned "26.0.4").settings = .ok "26.0.4".toList := by
    decide +kernel
  obtain ⟨issues, found, s', hgives, -, hmarks, hfailed, -, -, -, hread⟩ :=
    versionFormat_reports 2026 (versioned "26.0.4") (.new "Versions") hversion
  have hmade : IsMadeOf ReadsAs "26.0.4".toList "26".toList "0".toList "4".toList 26 0 4 :=
    ⟨by decide, word?_eq_some_iff.1 (by decide), word?_eq_some_iff.1 (by decide),
      word?_eq_some_iff.1 (by decide)⟩
  have hissues : issues =
      [("partner version of the year in 26.0.4 should be at least 1".toList, 3)] := by
    obtain ⟨rfl, -, -⟩ := hread _ _ _ _ _ _ hmade
    decide +kernel
  rw [hissues] at hmarks
  obtain ⟨w, rest, hw, hrest, rfl⟩ := List.forall₂_cons_left_iff.1 hmarks
  obtain rfl := List.forall₂_nil_left_iff.1 hrest
  obtain rfl := hw.unique (w :=
    ⟨"partner version of the year in 26.0.4 should be at least 1".toList, 3, none, by decide⟩)
    ⟨rfl, rfl, rfl⟩
  rw [hissues, if_neg (List.cons_ne_nil _ _)] at hfailed
  exact ⟨hversion, s', hgives, hfailed⟩

/-- A sign in front of the year is let through. -/
theorem versionIssues_signed :
    versionIssues (2026 - 2000) "+26.1.0".toList = [] ∧ ¬ IsRelease 2026 "+26.1.0".toList := by
  refine ⟨by decide +kernel, fun h => ?_⟩
  exact absurd (isRelease_iff.1 h).2.1 (by decide)

end CartridgeAudit.Rule
