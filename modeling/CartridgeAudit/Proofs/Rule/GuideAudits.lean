/-
CartridgeAudit/Proofs/Rule/GuideAudits.lean

Audits of guides: when they fail, and what they report.

Four rules look at one part of every guide, a page or a section.  They differ in the
guides they ask for, in the part, and in what the part has to name (`GuideRule`);
what they have in common is said once, of all four (`GuideRule.Answers`):

* a rule fails if it has no guides, or if a version that a part has to name is not
  configured, and then it blames the configuration.  A version of one generation has
  to be configured only if some guide covers it;
* otherwise it reports on each of its guides (`GuideRule.Reports`): on a part that
  cannot be found with the defect and nothing else, and on a part that can be found
  unless it names the versions.

The expressions for the versions are taken as they are; what they find is another
matter.  Here it counts that all of them can be built (`exists_pattern`) and that the
requirements on a guide are those of the versions that matter to it (`Makes`).
-/
import CartridgeAudit.Proofs.Pattern.Injection
import CartridgeAudit.Proofs.Rule.GuideVisits

namespace CartridgeAudit

open Audit Pattern

/-! ### The rules -/

/-- A version that a part of a guide has to name: the setting with the version, the
expression for it with its keyword, and the generation that a guide has to cover for
the version to matter. -/
structure Naming where
  setting : Option String
  template : Template
  onlyFor : Option Generation

namespace Naming

/-- Whether a version matters to a guide. -/
def AppliesTo (n : Naming) (d : Document) : Prop :=
  ∀ g, n.onlyFor = some g → ProjectRule.coversGeneration d g = true

/-- Whether a version has to be configured: it always matters, or to some guide. -/
def IsAsked (n : Naming) (guides : List Document) : Prop :=
  ∀ g, n.onlyFor = some g → ∃ d ∈ guides, ProjectRule.coversGeneration d g = true

/-- Whether the versions that have to be configured are. -/
def AllGiven (guides : List Document) (ns : List Naming) : Prop :=
  ∀ n ∈ ns, n.IsAsked guides → Settings.IsGiven n.setting

/-- Whether a text names the version. -/
def OccursIn (n : Naming) (t : Text) : Prop :=
  n.template.FindsIn [(Template.vars, [Settings.versionOf n.setting])] t

variable {n : Naming}

theorem appliesTo_of_all (h : n.onlyFor = none) (d : Document) : n.AppliesTo d := by
  intro g hg
  rw [h] at hg
  cases hg

theorem isAsked_of_all (h : n.onlyFor = none) (guides : List Document) : n.IsAsked guides := by
  intro g hg
  rw [h] at hg
  cases hg

end Naming

/-- The rules that look at one part of every guide. -/
inductive GuideRule
  | titleVersion
  | sfraVersion
  | compatibility
  | availability (minLength : Nat)

namespace GuideRule

/-- The rule on projects. -/
def rule : GuideRule → ProjectRule
  | titleVersion => ProjectRule.guideTitleVersion
  | sfraVersion => ProjectRule.guideSfraVersion
  | compatibility => ProjectRule.guideCompatibility
  | availability minLength => ProjectRule.guideAvailability minLength

/-- The part that a rule looks at. -/
def part : GuideRule → Text → Except DocumentError Text
  | titleVersion | sfraVersion => Document.firstPage
  | compatibility => (Document.sectionNamed · "compatibility".toList)
  | availability _ => (Document.sectionNamed · "availability".toList)

/-- The generation that a guide has to cover for a rule to look at it. -/
def wanted : GuideRule → Option Generation
  | sfraVersion => some .sfra
  | titleVersion | compatibility | availability _ => none

/-- The versions that the part has to name. -/
def namings (p : ProjectSettings) : GuideRule → List Naming
  | titleVersion => [⟨p.cartridgeVersion, .cartridgeVersion, none⟩]
  | sfraVersion => [⟨p.sfraVersion, .sfraVersion, none⟩]
  | compatibility =>
      [⟨p.platformVersion, .platformVersion, none⟩, ⟨p.compatibilityMode, .compatibilityMode, none⟩,
        ⟨p.sfraVersion, .sfraVersion, some .sfra⟩,
        ⟨p.sitegenVersion, .sitegenVersion, some .controllers⟩]
  | availability _ => []

/-- Whether a part is long enough. -/
def IsLongEnough (t : Text) : GuideRule → Prop
  | availability minLength => minLength < t.length
  | titleVersion | sfraVersion | compatibility => True

/-- Whether a rule passes over a project. -/
def Skips (r : GuideRule) (v : ProjectView) : Prop :=
  r = sfraVersion ∧ v.corpus.cartridges.names .sfra = []

section

variable (r : GuideRule) (p : ProjectSettings) (guides : List Document)

/-- Whether a part of a guide is as it should be. -/
def Accepts (d : Document) (t : Text) : Prop :=
  r.IsLongEnough t ∧ ∀ n ∈ r.namings p, n.AppliesTo d → n.OccursIn t

/-- Whether everything is there that a rule needs: guides, and all versions that have
to be configured. -/
def IsReady : Prop := guides ≠ [] ∧ Naming.AllGiven guides (r.namings p)

/-- What is found in a guide: the defect, if the part cannot be found, and nothing
else then; or something, if the part is not as it should be.  It is about the guide as
a whole, so it stands at the beginning. -/
structure Reports (d : Document) (found : List Violation) : Prop where
  defect : ∀ e, r.part d.content = .error e → found.map (·.text) = [e.message.toList]
  part : ∀ t, r.part d.content = .ok t → (found = [] ↔ r.Accepts p d t)
  whole : ∀ v ∈ found, v.offset = 0 ∧ v.row = none

/-- A session after an audit: each guide has been visited once, in the order of the
documents, and those in which something is found are kept. -/
structure Audited (found : Document → List Violation) (s s' : Session) : Prop where
  visited : s' = guides.foldl (Session.visit found) s
  counted : s'.filesChecked = s.filesChecked + guides.length
  kept : s'.failed = s.failed ++ (guides.filter (found · ≠ [])).map (.ofGuide found)
  reported : ∀ d ∈ guides, r.Reports p d (found d)

/-- How a rule on guides answers. -/
structure Answers (s : Session) (answer : Except AuditError Session) : Prop where
  fails : ¬ r.IsReady p guides → ∃ fault, answer = .error (.configuration fault)
  audits : r.IsReady p guides → ∃ found s', answer = .ok s' ∧ r.Audited p guides found s s'

end

/-! ### Answers -/

section

variable {r : GuideRule} {p : ProjectSettings} {guides : List Document} {s : Session}

/-- A rule that is not ready blames the configuration. -/
theorem Answers.of_fault (h : ¬ r.IsReady p guides) (fault : ConfigurationFault) :
    r.Answers p guides s (.error (.configuration fault)) :=
  ⟨fun _ => ⟨fault, rfl⟩, fun hready => absurd hready h⟩

/-- What is found in a guide is what the issues make. -/
theorem Reports.of_issues {d : Document} {issues : List Text} {found : List Violation}
    (h : (issues.mapM fun m => Violation.new m 0) = .ok found)
    (hdefect : ∀ e, r.part d.content = .error e → issues = [e.message.toList])
    (hpart : ∀ t, r.part d.content = .ok t → (issues = [] ↔ r.Accepts p d t)) :
    r.Reports p d found := by
  have hmarks := Violation.forall₂_marks h
  refine ⟨?_, ?_, ?_⟩
  · intro e he
    rw [hdefect e he] at hmarks
    obtain ⟨v, rest, hv, hrest, rfl⟩ := List.forall₂_cons_left_iff.1 hmarks
    obtain rfl := List.forall₂_nil_left_iff.1 hrest
    rw [List.map_singleton, hv.text_eq]
  · intro t ht
    rw [← hpart t ht, ← List.length_eq_zero_iff, ← hmarks.length_eq, List.length_eq_zero_iff]
  · exact forall_mem_of_forall₂ hmarks fun _ _ _ hv => ⟨hv.offset_eq, hv.row_eq⟩

/-- A rule that is ready visits its guides, whatever their texts are. -/
theorem Answers.of_check (h : r.IsReady p guides)
    {check : Document → Except DocumentError (List Text)}
    (hdefect : ∀ d e, r.part d.content = .error e → check d = .error e)
    (hpart : ∀ d ∈ guides, ∀ t, r.part d.content = .ok t → ∃ issues, check d = .ok issues ∧
      (∀ m ∈ issues, m ≠ []) ∧ (issues = [] ↔ r.Accepts p d t)) :
    r.Answers p guides s (ProjectRule.auditGuides check s guides) := by
  refine ⟨fun hnot => absurd h hnot, fun _ => ?_⟩
  have hmade : ∀ d ∈ guides, ∃ found,
      ((ProjectRule.guideIssues check d).mapM fun m => Violation.new m 0) = .ok found := by
    intro d hd
    refine exists_mapM_eq_ok fun m hm => Violation.exists_new ?_ 0
    rw [ProjectRule.guideIssues] at hm
    cases hfound : r.part d.content with
    | error e =>
      rw [hdefect d e hfound] at hm
      obtain rfl := List.mem_singleton.1 hm
      exact e.message_ne_nil
    | ok t =>
      obtain ⟨issues, hissues, hne, -⟩ := hpart d hd t hfound
      rw [hissues] at hm
      exact hne m hm
  choose! found hfound using hmade
  refine ⟨found, _, ProjectRule.auditGuides_eq_ok hfound s, rfl,
    Session.filesChecked_visits found s guides, Session.failed_visits found s guides, ?_⟩
  intro d hd
  apply Reports.of_issues (hfound d hd)
  · intro e he
    rw [ProjectRule.guideIssues, hdefect d e he]
  · intro t ht
    obtain ⟨issues, hissues, -, haccepts⟩ := hpart d hd t ht
    rw [ProjectRule.guideIssues, hissues]
    exact haccepts

/-- A rule that finds a part good or has one message about it. -/
theorem Answers.of_good (h : r.IsReady p guides) {good : Text → Prop} [DecidablePred good]
    {message : Document → Text → Text} (hmessage : ∀ d t, message d t ≠ [])
    (hgood : ∀ d ∈ guides, ∀ t, good t ↔ r.Accepts p d t) :
    r.Answers p guides s
      (ProjectRule.auditGuides (fun d => do
          let t ← r.part d.content
          if good t then return []
          return [message d t])
        s guides) := by
  apply Answers.of_check h
  · intro d e he
    rw [he]
    rfl
  · intro d hd t ht
    rw [ht]
    by_cases hgt : good t
    · refine ⟨[], ?_, List.forall_mem_nil _, by simpa using (hgood d hd t).1 hgt⟩
      show (if good t then _ else _) = _
      rw [if_pos hgt]
      rfl
    · refine ⟨[message d t], ?_, List.forall_mem_singleton.2 (hmessage d t), ?_⟩
      · show (if good t then _ else _) = _
        rw [if_neg hgt]
        rfl
      · simpa using mt (hgood d hd t).2 hgt

end

/-! ### One rule after the other -/

/-- Every version has an expression that finds it. -/
theorem exists_pattern {r : GuideRule} {p : ProjectSettings} {n : Naming} (hn : n ∈ r.namings p) :
    ∃ pattern, n.template.build [(Template.vars, [Settings.versionOf n.setting])] = .ok pattern ∧
      ∀ t, pattern.isMatch t = true ↔ n.OccursIn t := by
  have hbuild : ∃ pattern,
      n.template.build? [(Template.vars, [Settings.versionOf n.setting])] = some pattern := by
    cases r with
    | titleVersion =>
      obtain rfl := List.mem_singleton.1 hn
      exact ⟨_, Template.cartridgeVersion_build? _⟩
    | sfraVersion =>
      obtain rfl := List.mem_singleton.1 hn
      exact ⟨_, Template.sfraVersion_build? _⟩
    | compatibility =>
      simp only [namings, List.mem_cons, List.not_mem_nil, or_false] at hn
      rcases hn with rfl | rfl | rfl | rfl
      · exact ⟨_, Template.platformVersion_build? _⟩
      · exact ⟨_, Template.compatibilityMode_build? _⟩
      · exact ⟨_, Template.sfraVersion_build? _⟩
      · exact ⟨_, Template.sitegenVersion_build? _⟩
    | availability minLength => cases hn
  obtain ⟨pattern, hpattern⟩ := hbuild
  exact ⟨pattern, Template.build_eq_ok hpattern, fun t => (Template.findsIn_iff hpattern).symm⟩

section

variable {r : GuideRule} {p : ProjectSettings} {documents : List Document} {s : Session}

/-- A rule that has found its guides goes on with them. -/
theorem exists_answers_of_guides {f : List Document → Audit Session}
    (h : Document.wantedAmong r.wanted documents ≠ [] →
      ∃ answer, (f (Document.wantedAmong r.wanted documents)).Gives answer ∧
        r.Answers p (Document.wantedAmong r.wanted documents) s answer) :
    ∃ answer, Gives (do
        let guides ← Document.guides (← Audit.ofExcept (.ok documents)) r.wanted
        f guides) answer ∧
      r.Answers p (Document.wantedAmong r.wanted documents) s answer := by
  apply (gives_ofExcept _).exists_bind
  by_cases hguides : Document.wantedAmong r.wanted documents = []
  · obtain ⟨kind, hkind⟩ := Document.exists_gives_guides hguides
    exact ⟨_, hkind.bind_error _, .of_fault (fun h => h.1 hguides) (.noGuides kind)⟩
  · exact (Document.gives_guides hguides).exists_bind (h hguides)

/-- A rule on title pages, which have to name one version. -/
theorem exists_answers_page {n : Naming} (hnamings : r.namings p = [n]) (hall : n.onlyFor = none)
    (hpart : r.part = Document.firstPage) (hlong : ∀ t, r.IsLongEnough t) (key : String)
    {message : Text → Document → Text → Text}
    (hmessage : ∀ version d t, message version d t ≠ []) :
    ∃ answer, Gives (do
        let version ← Audit.ofExcept (Settings.required n.setting key)
        let pattern ← Audit.ofExcept (n.template.build [(Template.vars, [version])])
        let guides ← Document.guides (← Audit.ofExcept (.ok documents)) r.wanted
        Audit.ofExcept <| ProjectRule.auditGuides
          (fun d => do
            let page ← Document.firstPage d.content
            if pattern.isMatch page then return []
            return [message version d page])
          s guides) answer ∧
      r.Answers p (Document.wantedAmong r.wanted documents) s answer := by
  have hn : n ∈ r.namings p := hnamings ▸ List.mem_singleton_self n
  by_cases hgiven : Settings.IsGiven n.setting
  · rw [Settings.required_of_isGiven hgiven]
    obtain ⟨pattern, hbuild, hoccurs⟩ := exists_pattern hn
    apply (gives_ofExcept _).exists_bind
    rw [hbuild]
    apply (gives_ofExcept _).exists_bind
    apply exists_answers_of_guides
    intro hguides
    generalize Document.wantedAmong r.wanted documents = guides at hguides ⊢
    have hready : r.IsReady p guides := by
      refine ⟨hguides, ?_⟩
      rw [hnamings]
      exact List.forall_mem_singleton.2 fun _ => hgiven
    have hgood : ∀ d ∈ guides, ∀ t, pattern.isMatch t = true ↔ r.Accepts p d t := by
      intro d _ t
      rw [hoccurs, Accepts, hnamings, List.forall_mem_singleton]
      exact ⟨fun h => ⟨hlong t, fun _ => h⟩, fun h => h.2 (Naming.appliesTo_of_all hall d)⟩
    have hanswers := Answers.of_good (s := s) hready (hmessage (Settings.versionOf n.setting)) hgood
    rw [hpart] at hanswers
    exact ⟨_, gives_ofExcept _, hanswers⟩
  · rw [Settings.required_of_not_isGiven hgiven]
    refine ⟨_, (gives_ofExcept _).bind_error _, .of_fault ?_ (.settingMissing key)⟩
    intro h
    exact hgiven (h.2 n hn (Naming.isAsked_of_all hall _))

/-- A rule on the length of a section. -/
theorem exists_answers_availability (minLength : Nat) {message : Document → Text → Text}
    (hmessage : ∀ d t, message d t ≠ []) :
    ∃ answer, Gives (do
        let guides ← Document.guides (← Audit.ofExcept (.ok documents))
          (availability minLength).wanted
        Audit.ofExcept <| ProjectRule.auditGuides
          (fun d => do
            let body ← Document.sectionNamed d.content "availability".toList
            if minLength < body.length then return []
            return [message d body])
          s guides) answer ∧
      (availability minLength).Answers p
        (Document.wantedAmong (availability minLength).wanted documents) s answer := by
  apply exists_answers_of_guides
  intro hguides
  generalize Document.wantedAmong (availability minLength).wanted documents = guides at hguides ⊢
  have hready : (availability minLength).IsReady p guides :=
    ⟨hguides, List.forall_mem_nil _⟩
  have hgood : ∀ d ∈ guides, ∀ t : Text,
      minLength < t.length ↔ (availability minLength).Accepts p d t :=
    fun d _ t => ⟨fun h => ⟨h, List.forall_mem_nil _⟩, fun h => h.1⟩
  exact ⟨_, gives_ofExcept _, .of_good hready hmessage hgood⟩

/-! ### The compatibility section -/

/-- A step that makes requirements of versions, if those that matter are configured; the
requirements on a guide are met where the versions occur. -/
structure Makes (guides : List Document) (ns : List Naming)
    (x : Except AuditError (List ProjectRule.Requirement)) : Prop where
  fails : ¬ Naming.AllGiven guides ns → ∃ fault, x = .error (.configuration fault)
  makes : Naming.AllGiven guides ns → ∃ qs, x = .ok qs ∧ ∀ d ∈ guides, ∀ t,
      (∀ q ∈ qs, q.appliesTo d = true → q.pattern.isMatch t = true) ↔
        ∀ n ∈ ns, n.AppliesTo d → n.OccursIn t

/-- One list of requirements after the other. -/
def makeBoth (x y : Except AuditError (List ProjectRule.Requirement)) :
    Except AuditError (List ProjectRule.Requirement) := do
  let qs ← x
  let rs ← y
  return qs ++ rs

variable {guides : List Document}

theorem Makes.append {ns ms : List Naming} {x y : Except AuditError (List ProjectRule.Requirement)}
    (hx : Makes guides ns x) (hy : Makes guides ms y) :
    Makes guides (ns ++ ms) (makeBoth x y) := by
  by_cases hns : Naming.AllGiven guides ns
  · obtain ⟨qs, rfl, hqs⟩ := hx.makes hns
    constructor
    · intro h
      obtain ⟨fault, rfl⟩ := hy.fails fun hms => h (List.forall_mem_append.2 ⟨hns, hms⟩)
      exact ⟨fault, rfl⟩
    · intro h
      obtain ⟨rs, rfl, hrs⟩ := hy.makes (List.forall_mem_append.1 h).2
      refine ⟨qs ++ rs, rfl, ?_⟩
      intro d hd t
      rw [List.forall_mem_append, List.forall_mem_append, hqs d hd, hrs d hd]
  · -- the first versions make the step fail already
    obtain ⟨fault, rfl⟩ := hx.fails hns
    exact ⟨fun _ => ⟨fault, rfl⟩, fun h => absurd (List.forall_mem_append.1 h).1 hns⟩

theorem appliesTo_iff {q : ProjectRule.Requirement} {n : Naming} (h : q.onlyFor = n.onlyFor)
    (d : Document) : q.appliesTo d = true ↔ n.AppliesTo d := by
  rw [ProjectRule.Requirement.appliesTo, Naming.AppliesTo, h]
  cases n.onlyFor <;> simp

/-- The step for one version. -/
theorem makes_ofSetting {n : Naming} (hn : n ∈ compatibility.namings p)
    (hasked : n.IsAsked guides) (label : String) (any : Regex) (key : String) :
    Makes guides [n] (do
      return [← ProjectRule.Requirement.ofSetting label n.template any n.onlyFor n.setting
        key]) := by
  constructor
  · intro h
    have hnot : ¬ Settings.IsGiven n.setting := fun hgiven =>
      h (List.forall_mem_singleton.2 fun _ => hgiven)
    refine ⟨.settingMissing key, ?_⟩
    rw [ProjectRule.Requirement.ofSetting, Settings.required_of_not_isGiven hnot]
    rfl
  · intro h
    have hgiven := List.forall_mem_singleton.1 h hasked
    obtain ⟨pattern, hbuild, hoccurs⟩ := exists_pattern hn
    refine ⟨[⟨label, Settings.versionOf n.setting, pattern, any, n.onlyFor⟩], ?_, ?_⟩
    · rw [ProjectRule.Requirement.ofSetting, Settings.required_of_isGiven hgiven]
      show ((n.template.build _ >>= _) >>= _) = _
      rw [hbuild]
      rfl
    · intro d _ t
      rw [List.forall_mem_singleton, List.forall_mem_singleton, appliesTo_iff rfl, hoccurs]

/-- The step for a version of one generation, which no guide may cover. -/
theorem makes_ifCovered {n : Naming} {g : Generation} (guides : List Document)
    (hn : n ∈ compatibility.namings p) (hg : n.onlyFor = some g) (label : String) (any : Regex)
    (key : String) :
    Makes guides [n] (ProjectRule.Requirement.ifCovered guides g fun onlyFor =>
      ProjectRule.Requirement.ofSetting label n.template any onlyFor n.setting key) := by
  have hasked : n.IsAsked guides ↔ guides.any (ProjectRule.coversGeneration · g) = true := by
    simp [Naming.IsAsked, hg]
  rw [ProjectRule.Requirement.ifCovered, ← hg]
  split
  · next hany => exact makes_ofSetting hn (hasked.2 hany) label any key
  · next hany =>
    constructor
    · intro h
      exact absurd (List.forall_mem_singleton.2 fun hmatters => absurd (hasked.1 hmatters) hany) h
    · intro _
      refine ⟨[], rfl, ?_⟩
      intro d hd t
      rw [List.forall_mem_singleton]
      refine iff_of_true (List.forall_mem_nil _) fun happlies => ?_
      exact absurd (List.any_eq_true.2 ⟨d, hd, happlies g hg⟩) hany

/-- Requirements of four versions, made one after the other. -/
theorem four_eq_makeBoth (x y : Except AuditError ProjectRule.Requirement)
    (z w : Except AuditError (List ProjectRule.Requirement)) :
    (do
      let a ← x
      let b ← y
      let c ← z
      let d ← w
      return a :: b :: c ++ d) =
    makeBoth (do return [← x]) (makeBoth (do return [← y]) (makeBoth z w)) := by
  cases x with
  | error e => rfl
  | ok a =>
    cases y with
    | error e => rfl
    | ok b =>
      cases z with
      | error e => rfl
      | ok c => cases w <;> rfl

theorem makes_compatibilityRequirements (p : ProjectSettings) (guides : List Document) :
    Makes guides (compatibility.namings p) (ProjectRule.compatibilityRequirements p guides) := by
  have hplatform := makes_ofSetting (p := p) (n := ⟨p.platformVersion, .platformVersion, none⟩)
    (by simp [namings]) (Naming.isAsked_of_all rfl guides) "platform version"
    Catalog.anyPlatformVersion "platform_version"
  have hmode := makes_ofSetting (p := p) (n := ⟨p.compatibilityMode, .compatibilityMode, none⟩)
    (by simp [namings]) (Naming.isAsked_of_all rfl guides) "compatibility mode"
    Catalog.anyCompatibilityMode "compatibility_mode"
  have hsfra := makes_ifCovered (p := p) (n := ⟨p.sfraVersion, .sfraVersion, some .sfra⟩) guides
    (by simp [namings]) rfl "sfra" Catalog.anySfraVersion "sfra_version"
  have hsitegen := makes_ifCovered (p := p)
    (n := ⟨p.sitegenVersion, .sitegenVersion, some .controllers⟩) guides (by simp [namings]) rfl
    "SiteGen version" Catalog.anySitegenVersion "sitegen_version"
  rw [ProjectRule.compatibilityRequirements, four_eq_makeBoth]
  exact hplatform.append (hmode.append (hsfra.append hsitegen))

/-- An audit with requirements that are met where the versions occur. -/
theorem Answers.of_requirements {requirements : List ProjectRule.Requirement}
    (h : compatibility.IsReady p guides)
    (hmet : ∀ d ∈ guides, ∀ t,
      (∀ q ∈ requirements, q.appliesTo d = true → q.pattern.isMatch t = true) ↔
        ∀ n ∈ compatibility.namings p, n.AppliesTo d → n.OccursIn t) :
    compatibility.Answers p guides s
      (ProjectRule.auditGuides (fun d => do
          let body ← Document.sectionNamed d.content "compatibility".toList
          return (requirements.filter fun r => r.appliesTo d && !r.pattern.isMatch body).map
            fun r => r.issue d body)
        s guides) := by
  apply Answers.of_check h
  · intro d e he
    change Document.sectionNamed _ _ = _ at he
    rw [he]
    rfl
  · intro d hd t ht
    change Document.sectionNamed _ _ = _ at ht
    rw [ht]
    refine ⟨_, rfl, ?_, ?_⟩
    · intro m hm
      obtain ⟨q, -, rfl⟩ := List.mem_map.1 hm
      simp [ProjectRule.Requirement.issue]
    · have haccepts : compatibility.Accepts p d t ↔
          ∀ n ∈ compatibility.namings p, n.AppliesTo d → n.OccursIn t := and_iff_right trivial
      rw [haccepts, ← hmet d hd t, List.map_eq_nil_iff, List.filter_eq_nil_iff]
      simp

/-- The rule on versions in a section. -/
theorem exists_answers_compatibility :
    ∃ answer, Gives (do
        let guides ← Document.guides (← Audit.ofExcept (.ok documents)) compatibility.wanted
        let requirements ← Audit.ofExcept (ProjectRule.compatibilityRequirements p guides)
        Audit.ofExcept <| ProjectRule.auditGuides
          (fun d => do
            let body ← Document.sectionNamed d.content "compatibility".toList
            return (requirements.filter fun r => r.appliesTo d && !r.pattern.isMatch body).map
              fun r => r.issue d body)
          s guides) answer ∧
      compatibility.Answers p (Document.wantedAmong compatibility.wanted documents) s answer := by
  apply exists_answers_of_guides
  intro hguides
  generalize Document.wantedAmong compatibility.wanted documents = guides at hguides ⊢
  have hmakes := makes_compatibilityRequirements p guides
  by_cases hgiven : Naming.AllGiven guides (compatibility.namings p)
  · obtain ⟨requirements, hok, hmet⟩ := hmakes.makes hgiven
    rw [hok]
    apply (gives_ofExcept _).exists_bind
    exact ⟨_, gives_ofExcept _, .of_requirements ⟨hguides, hgiven⟩ hmet⟩
  · obtain ⟨fault, hfault⟩ := hmakes.fails hgiven
    rw [hfault]
    exact ⟨_, (gives_ofExcept _).bind_error _, .of_fault (fun h => hgiven h.2) fault⟩

end

/-! ### All four rules -/

variable (c : Corpus) (settings : Settings) (documents : List Document) (s : Session)

theorem gives_of_skips {r : GuideRule} (h : r.Skips ⟨c, settings, some documents⟩) :
    (r.rule.check ⟨c, settings, some documents⟩ s).Gives (.ok s) := by
  obtain ⟨rfl, hnone⟩ := h
  show (ProjectRule.guideSfraVersion.check _ _).Gives _
  unfold ProjectRule.guideSfraVersion
  dsimp only
  rw [if_pos (by simpa [ProjectView.hasGeneration] using hnone)]
  exact gives_pure s

theorem exists_answers {r : GuideRule} (h : ¬ r.Skips ⟨c, settings, some documents⟩) :
    ∃ answer, (r.rule.check ⟨c, settings, some documents⟩ s).Gives answer ∧
      r.Answers settings.project (Document.wantedAmong r.wanted documents) s answer := by
  cases r with
  | titleVersion =>
    exact exists_answers_page (r := titleVersion) (p := settings.project)
      (n := ⟨settings.project.cartridgeVersion, .cartridgeVersion, none⟩) rfl rfl rfl
      (fun _ => trivial) "cartridge_version" (by simp)
  | sfraVersion =>
    have hsome : c.cartridges.names .sfra ≠ [] := fun hnone => h ⟨rfl, hnone⟩
    show ∃ answer, (ProjectRule.guideSfraVersion.check _ _).Gives answer ∧ _
    unfold ProjectRule.guideSfraVersion
    dsimp only
    rw [if_neg (by simpa [ProjectView.hasGeneration] using hsome)]
    exact exists_answers_page (r := sfraVersion) (p := settings.project)
      (n := ⟨settings.project.sfraVersion, .sfraVersion, none⟩) rfl rfl rfl (fun _ => trivial)
      "sfra_version" (by simp)
  | compatibility => exact exists_answers_compatibility
  | availability minLength => exact exists_answers_availability minLength (by simp)

/-- **A rule on guides** fails only for the configuration or for want of guides;
otherwise it reports on each guide that it asks for, whatever the texts are. -/
theorem check_answers (r : GuideRule) :
    ∃ answer, (r.rule.check ⟨c, settings, some documents⟩ s).Gives answer ∧
      (r.Skips ⟨c, settings, some documents⟩ → answer = .ok s) ∧
      (¬ r.Skips ⟨c, settings, some documents⟩ →
        r.Answers settings.project (Document.wantedAmong r.wanted documents) s answer) := by
  by_cases h : r.Skips ⟨c, settings, some documents⟩
  · exact ⟨_, gives_of_skips c settings documents s h, fun _ => rfl, fun hnot => absurd h hnot⟩
  · obtain ⟨answer, hgives, hanswers⟩ := exists_answers c settings documents s h
    exact ⟨answer, hgives, fun hskips => absurd hskips h, fun _ => hanswers⟩

end GuideRule

end CartridgeAudit
