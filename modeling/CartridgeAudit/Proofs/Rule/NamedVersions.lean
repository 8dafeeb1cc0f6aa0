/-
CartridgeAudit/Proofs/Rule/NamedVersions.lean

Versions behind a keyword.

Four templates look for a configured version behind a keyword, with no digit in
between.  A version begins with a digit, so what is compared with it is the first
number behind a keyword: the version is found if and only if such a number begins
with it (`VersionTemplate.exists_isMatch_iff`).  Nothing is said about how the number goes on, so
a number that goes on with a further digit is accepted as well, though it is
another version (`compatibilityMode_accepts_longer`).
-/
import CartridgeAudit.Proofs.Document.Contents
import CartridgeAudit.Proofs.Pattern.Injection

namespace CartridgeAudit.Rule

open Pattern Regex Cursor

/-! ### Versions and keywords -/

/-- A version: numbers with points between them. -/
def IsVersion (v : Text) : Prop :=
  ∃ groups : List Text,
    groups ≠ [] ∧ (∀ g ∈ groups, Document.IsNumeral g) ∧ v = Text.join ['.'] groups

/-- A template for a version behind a keyword. -/
structure VersionTemplate where
  template : Template
  keywords : List String
  /-- how many characters may stand between keyword and version, if not any number -/
  gap? : Option Nat

namespace VersionTemplate

/-- The version of the storefront architecture. -/
def sfra : VersionTemplate := ⟨.sfraVersion, ["sfra"], none⟩

/-- The version of the platform. -/
def platform : VersionTemplate :=
  ⟨.platformVersion, ["sfcc", "salesforce", "api", "platform"], none⟩

/-- The version of SiteGenesis. -/
def sitegen : VersionTemplate := ⟨.sitegenVersion, ["sitegen", "genes", "sg"], some 25⟩

/-- The compatibility mode. -/
def compatibility : VersionTemplate := ⟨.compatibilityMode, ["compatibility"], none⟩

end VersionTemplate

/-- The templates for versions behind a keyword. -/
def versionTemplates : List VersionTemplate := [.sfra, .platform, .sitegen, .compatibility]

namespace VersionTemplate

variable (k : VersionTemplate)

/-- What may stand between a keyword and the number behind it. -/
structure IsGap (gap : Text) : Prop where
  not_digit : ∀ x ∈ gap, Text.isDigit x = false
  length_le : ∀ n ∈ k.gap?, gap.length ≤ n

/-- A text begins with the first number behind a keyword, and goes on to the end
of a section. -/
def NumberAhead (body number : Text) : Prop :=
  ∃ keyword ∈ k.keywords, ∃ before gap, body = before ++ (keyword.toList ++ (gap ++ number)) ∧
    k.IsGap gap ∧ ∃ x xs, number = x :: xs ∧ Text.isDigit x = true

/-- A section names a version: behind a keyword it stands somewhere, and no
further digit stands directly behind it. -/
def Names (v body : Text) : Prop :=
  ∃ keyword ∈ k.keywords, ∃ before middle after,
    body = before ++ (keyword.toList ++ (middle ++ (v ++ after))) ∧
      ∀ x ∈ after.head?, Text.isDigit x = false

end VersionTemplate

/-- A version begins with a digit. -/
theorem IsVersion.exists_cons {v : Text} (h : IsVersion v) :
    ∃ x xs, v = x :: xs ∧ Text.isDigit x = true := by
  obtain ⟨groups, hne, hgroups, rfl⟩ := h
  obtain ⟨g, groups, rfl⟩ := List.exists_cons_of_ne_nil hne
  obtain ⟨x, xs, rfl, hx, -⟩ := (hgroups g List.mem_cons_self).exists_cons
  cases groups with
  | nil => exact ⟨x, xs, rfl, hx⟩
  | cons g' groups => exact ⟨x, _, rfl, hx⟩

/-! ### What the expressions match -/

section

variable {k : VersionTemplate} {p q : Cursor}

theorem matches_oneOf_iff {words : List String} :
    (Template.oneOf words).Matches p q ↔ ∃ w ∈ words, p.Leads w.toList q := by
  simp only [Template.oneOf, matches_choice, List.mem_map, exists_exists_and_eq_and, lit,
    matches_literal]

theorem isGap_of_none (h : k.gap? = none) :
    (run .notDigit).Matches p q ↔ ∃ gap, k.IsGap gap ∧ p.Leads gap q := by
  simp only [run, matches_many, contains_notDigit_iff]
  constructor
  · rintro ⟨gap, hleads, hgap⟩
    exact ⟨gap, ⟨hgap, fun n hn => by rw [h] at hn; cases hn⟩, hleads⟩
  · rintro ⟨gap, hgap, hleads⟩
    exact ⟨gap, hleads, hgap.not_digit⟩

theorem isGap_of_some {n : Nat} (h : k.gap? = some n) :
    (atMost n (.single .notDigit)).Matches p q ↔ ∃ gap, k.IsGap gap ∧ p.Leads gap q := by
  simp only [matches_atMost, contains_notDigit_iff]
  constructor
  · rintro ⟨gap, hlength, hgap, hleads⟩
    refine ⟨gap, ⟨hgap, fun m hm => ?_⟩, hleads⟩
    rw [h] at hm
    exact Option.some.inj hm ▸ hlength
  · rintro ⟨gap, hgap, hleads⟩
    exact ⟨gap, hgap.length_le n h, hgap.not_digit, hleads⟩

/-- A template for a version is built to an expression for a keyword, one for a
gap, and the version. -/
theorem VersionTemplate.exists_build (hk : k ∈ versionTemplates) :
    ∃ keyword gap : List Regex, (∀ names, k.template.build? [(Template.vars, names)] =
        some (.sequence (keyword ++ (gap ++ [slot names])))) ∧
      (∀ p q, (Regex.sequence keyword).Matches p q ↔ ∃ w ∈ k.keywords, p.Leads w.toList q) ∧
      ∀ p q, (Regex.sequence gap).Matches p q ↔ ∃ s, k.IsGap s ∧ p.Leads s q := by
  have hone : ∀ (s : String) (p q : Cursor), (Regex.sequence (Template.letters s)).Matches p q ↔
      ∃ w ∈ [s], p.Leads w.toList q := by
    intro s p q
    simp only [Template.matches_letters, List.mem_singleton, exists_eq_left]
  simp only [versionTemplates, List.mem_cons, List.not_mem_nil, or_false] at hk
  rcases hk with rfl | rfl | rfl | rfl
  · exact ⟨Template.letters "sfra", [run .notDigit], Template.sfraVersion_build?, hone "sfra",
      fun _ _ => isGap_of_none rfl⟩
  · exact ⟨[Template.oneOf _], [run .notDigit], Template.platformVersion_build?,
      fun _ _ => matches_oneOf_iff, fun _ _ => isGap_of_none rfl⟩
  · exact ⟨[Template.oneOf _], [atMost 25 (.single .notDigit)], Template.sitegenVersion_build?,
      fun _ _ => matches_oneOf_iff, fun _ _ => isGap_of_some rfl⟩
  · exact ⟨Template.letters "compatibility", [run .notDigit], Template.compatibilityMode_build?,
      hone "compatibility", fun _ _ => isGap_of_none rfl⟩

end

/-! ### Which sections are accepted -/

section

variable {k : VersionTemplate} {v body number : Text}

/-- A number behind a keyword, with the places it is between. -/
theorem VersionTemplate.numberAhead_iff :
    k.NumberAhead body number ↔ ∃ p a b : Cursor, p.text = body ∧
      (∃ w ∈ k.keywords, p.Leads w.toList a) ∧ (∃ s, k.IsGap s ∧ a.Leads s b) ∧
      b.after = number ∧ ∃ x xs, number = x :: xs ∧ Text.isDigit x = true := by
  constructor
  · rintro ⟨w, hw, before, gap, rfl, hgap, hdigit⟩
    refine ⟨⟨before.reverse, w.toList ++ (gap ++ number)⟩,
      ⟨w.toList.reverse ++ before.reverse, gap ++ number⟩,
      ⟨gap.reverse ++ (w.toList.reverse ++ before.reverse), number⟩, ?_,
      ⟨w, hw, rfl, rfl⟩, ⟨gap, hgap, rfl, rfl⟩, rfl, hdigit⟩
    simp [Cursor.text]
  · rintro ⟨p, a, b, rfl, ⟨w, hw, hpa⟩, ⟨gap, hgap, hab⟩, rfl, hdigit⟩
    refine ⟨w, hw, p.before.reverse, gap, ?_, hgap, hdigit⟩
    rw [Cursor.text, hpa.ahead, hab.ahead]

/-- What is found is a number that begins with the version. -/
theorem VersionTemplate.exists_isMatch_iff (hk : k ∈ versionTemplates) (hv : IsVersion v)
    (body : Text) :
    ∃ r, k.template.build [(Template.vars, [v])] = .ok r ∧
      (r.isMatch body = true ↔ ∃ number, k.NumberAhead body number ∧ v <+: number) := by
  obtain ⟨keyword, gap, hbuild, hkeyword, hgap⟩ := VersionTemplate.exists_build hk
  refine ⟨_, Template.build_eq_ok (hbuild [v]), ?_⟩
  have hslot : ∀ b q, (Regex.sequence [slot [v]]).Matches b q ↔ b.Leads v q := fun b q =>
    matches_literal
  simp only [isMatch_iff, matches_sequence_append, hkeyword, hgap, hslot, numberAhead_iff]
  constructor
  · rintro ⟨p, q, htext, a, hpa, b, hab, hbq⟩
    obtain ⟨x, xs, rfl, hx⟩ := hv.exists_cons
    exact ⟨b.after, ⟨p, a, b, htext, hpa, hab, rfl, x, xs ++ q.after, hbq.ahead, hx⟩,
      q.after, hbq.ahead.symm⟩
  · rintro ⟨_, ⟨p, a, b, htext, hpa, hab, rfl, -⟩, rest, hrest⟩
    exact ⟨p, ⟨v.reverse ++ b.before, rest⟩, htext, a, hpa, b, hab, hrest.symm, rfl⟩

/-- A number that begins with a version goes on with a digit, or names it. -/
theorem VersionTemplate.NumberAhead.names_or (h : k.NumberAhead body number) (hv : v <+: number) :
    k.Names v body ∨ ∃ x, Text.isDigit x = true ∧ v ++ [x] <+: number := by
  obtain ⟨w, hw, before, gap, rfl, -, -⟩ := h
  obtain ⟨after, rfl⟩ := hv
  by_cases hlonger : ∃ x ∈ after.head?, Text.isDigit x = true
  · obtain ⟨x, hx, hdigit⟩ := hlonger
    obtain ⟨xs, rfl⟩ := List.head?_eq_some_iff.1 hx
    exact .inr ⟨x, hdigit, xs, by simp⟩
  · refine .inl ⟨w, hw, before, gap, after, rfl, fun x hx => ?_⟩
    rw [Bool.eq_false_iff]
    exact fun hdigit => hlonger ⟨x, hx, hdigit⟩

/-- **A section is accepted for a version** if and only if the first number
behind some keyword begins with it.  So the version is named there, unless each
such number goes on with a further digit. -/
theorem versionTemplates_accept (hk : k ∈ versionTemplates) (hv : IsVersion v) (body : Text) :
    ∃ r, k.template.build [(Template.vars, [v])] = .ok r ∧
      (r.isMatch body = true ↔ ∃ number, k.NumberAhead body number ∧ v <+: number) ∧
      (r.isMatch body = true → k.Names v body ∨
        ∀ number, k.NumberAhead body number → v <+: number →
          ∃ x, Text.isDigit x = true ∧ v ++ [x] <+: number) := by
  obtain ⟨r, hr, hiff⟩ := VersionTemplate.exists_isMatch_iff hk hv body
  refine ⟨r, hr, hiff, fun _ => ?_⟩
  by_cases hnames : k.Names v body
  · exact .inl hnames
  · exact .inr fun number hnumber hprefix => (hnumber.names_or hprefix).resolve_left hnames

end

theorem isVersion_19_1 : IsVersion "19.1".toList :=
  ⟨["19".toList, "1".toList], by decide, by decide, rfl⟩

/-- A version is found where it is named. -/
theorem versionTemplates_accept_named :
    VersionTemplate.compatibility ∈ versionTemplates ∧ IsVersion "19.1".toList ∧
      ∃ r, Template.compatibilityMode.build [(Template.vars, ["19.1".toList])] = .ok r ∧
        r.isMatch "compatibilitymode19.1,".toList = true := by
  have hmem : VersionTemplate.compatibility ∈ versionTemplates := by simp [versionTemplates]
  obtain ⟨r, hr, hiff, -⟩ :=
    versionTemplates_accept hmem isVersion_19_1 "compatibilitymode19.1,".toList
  refine ⟨hmem, isVersion_19_1, r, hr, hiff.2 ⟨"19.1,".toList, ?_, by decide⟩⟩
  exact ⟨"compatibility", by decide, [], "mode".toList, rfl,
    ⟨by simp [Text.isDigit], fun _ h => nomatch h⟩, '1', _, rfl, by decide⟩

/-- A section that names `19.10` only is accepted for `19.1`. -/
theorem compatibilityMode_accepts_longer :
    IsVersion "19.1".toList ∧
      (∃ r, Template.compatibilityMode.build [(Template.vars, ["19.1".toList])] = .ok r ∧
        r.isMatch "compatibilitymode19.10".toList = true) ∧
      ¬ VersionTemplate.compatibility.Names "19.1".toList "compatibilitymode19.10".toList := by
  refine ⟨isVersion_19_1, ?_, ?_⟩
  · obtain ⟨r, hr, hiff⟩ := VersionTemplate.exists_isMatch_iff (k := .compatibility)
      (by simp [versionTemplates]) isVersion_19_1 "compatibilitymode19.10".toList
    refine ⟨r, hr, hiff.2 ⟨"19.10".toList, ?_, by decide⟩⟩
    exact ⟨"compatibility", by decide, [], "mode".toList, rfl,
      ⟨by simp [Text.isDigit], fun _ h => nomatch h⟩, '1', _, rfl, by decide⟩
  · rintro ⟨w, -, before, middle, after, hbody, hafter⟩
    -- the version stands at one place only
    have htail : "19.1".toList ++ after ∈ "compatibilitymode19.10".toList.tails :=
      (List.mem_tails _ _).2 ⟨before ++ (w.toList ++ middle), by rw [hbody]; simp⟩
    have honly : ∀ t ∈ "compatibilitymode19.10".toList.tails, "19.1".toList <+: t →
        t = "19.1".toList ++ "0".toList := by decide
    obtain rfl := List.append_cancel_left (honly _ htail ⟨after, rfl⟩)
    exact absurd (hafter '0' rfl) (by decide)

end CartridgeAudit.Rule
