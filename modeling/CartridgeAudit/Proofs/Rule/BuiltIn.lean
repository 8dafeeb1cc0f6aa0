/-
CartridgeAudit/Proofs/Rule/BuiltIn.lean

The rules that the auditor comes with, and what they do not look at.

A rule could read the notices that another rule left, or documents that were
loaded for another rule.  No rule of the auditor does: its checks are steady
(`Rule.BuiltIn.steady`, `ProjectRule.BuiltIn.steady`), and a rule that asks for
no documents is not told about them (`ProjectRule.BuiltIn.check_documents`).
-/
import CartridgeAudit.Proofs.Project.Steps
import CartridgeAudit.Rule.Preset

namespace CartridgeAudit

open Audit

/-! ### The rules of the auditor -/

/-- The rules on files, with any options and any severity. -/
inductive Rule.BuiltIn : Rule → Prop
  | importPaths : BuiltIn Rule.importPaths
  | noTodo : BuiltIn Rule.noTodo
  | noSessionCustom : BuiltIn Rule.noSessionCustom
  | closeReadersWriters : BuiltIn Rule.closeReadersWriters
  | closeIterators (classes : List Rule.QueryClass) : BuiltIn (Rule.closeIterators classes)
  | noOldScripts : BuiltIn Rule.noOldScripts
  | localServiceRegistry : BuiltIn Rule.localServiceRegistry
  | noHardcodedUrls : BuiltIn Rule.noHardcodedUrls
  | noPxSizes (maxPx : Nat) : BuiltIn (Rule.noPxSizes maxPx)
  | noImportant : BuiltIn Rule.noImportant
  | noHardcodedStrings : BuiltIn Rule.noHardcodedStrings
  | noUnencodedOutput : BuiltIn Rule.noUnencodedOutput
  | noInlineStyles : BuiltIn Rule.noInlineStyles
  | modelUnitTests : BuiltIn Rule.modelUnitTests
  | modelCallsSuper : BuiltIn Rule.modelCallsSuper
  | controllerJsonTests : BuiltIn Rule.controllerJsonTests
  | noReplacedEndpoints : BuiltIn Rule.noReplacedEndpoints
  | noControllerCalls : BuiltIn Rule.noControllerCalls
  | jobMetadata (site : String) : BuiltIn (Rule.jobMetadata site)
  | withSeverity {r : Rule} (h : BuiltIn r) (s : Severity) : BuiltIn (r.withSeverity s)

/-- The rules on projects, with any options and any severity. -/
inductive ProjectRule.BuiltIn : ProjectRule → Prop
  | versionFormat (year : Int) : BuiltIn (ProjectRule.versionFormat year)
  | manifestVersion : BuiltIn ProjectRule.manifestVersion
  | guideTitleVersion : BuiltIn ProjectRule.guideTitleVersion
  | guideSfraVersion : BuiltIn ProjectRule.guideSfraVersion
  | guideCompatibility : BuiltIn ProjectRule.guideCompatibility
  | guideAvailability (minLength : Nat) : BuiltIn (ProjectRule.guideAvailability minLength)
  | overviewDocument : BuiltIn ProjectRule.overviewDocument
  | repositoryLayout : BuiltIn ProjectRule.repositoryLayout
  | withSeverity {r : ProjectRule} (h : BuiltIn r) (s : Severity) : BuiltIn (r.withSeverity s)

/-! ### Selections and documents -/

theorem Corpus.steady_files (c : Corpus) (q : FileQuery) : (c.files q).Steady := by
  unfold files
  extract_lets dir
  cases c.disk.directory? dir with
  | none => exact (steady_notify _).bind fun _ => steady_pure _
  | some t =>
    apply (steady_ofExcept _).bind
    intro patterns
    apply (steady_ofExcept _).bind
    intro found
    exact steady_pure _

namespace Document

theorem steady_load (c : Corpus) : (load c).Steady := by
  unfold load
  apply (c.steady_files _).bind
  intro files
  split
  · exact (steady_throw _).bind fun _ => (steady_ofExcept _).bind fun _ => steady_pure _
  · exact (steady_ofExcept _).bind fun _ => steady_pure _

theorem steady_collectGuides (wanted : Option Generation) (documents : List Document) :
    (collectGuides wanted documents).Steady := by
  induction documents with
  | nil => exact steady_pure _
  | cons d ds ih =>
    unfold collectGuides
    split
    · split
      · exact ih.bind fun _ => steady_pure _
      · dsimp only
        split
        · exact (steady_notify _).bind fun _ => ih
        · split
          · exact ih.bind fun _ => steady_pure _
          · exact ih
    · exact ih

theorem steady_guides (documents : List Document) (wanted : Option Generation) :
    (guides documents wanted).Steady := by
  unfold guides
  apply (steady_collectGuides wanted documents).bind
  intro found
  split
  · exact (steady_throw _).bind fun _ => steady_pure _
  · exact steady_pure _

end Document

/-! ### Checks of files -/

namespace Rule

theorem steady_modelUnitTests (v : FileView) : (modelUnitTests.check v).Steady := by
  apply (v.corpus.steady_files _).bind
  intro tests
  split
  · exact steady_pure _
  · exact (steady_ofExcept _).bind fun _ => steady_pure _

theorem steady_controllerJsonTests (v : FileView) : (controllerJsonTests.check v).Steady := by
  apply (steady_ofExcept _).bind
  intro endpoints
  dsimp only
  split
  · exact steady_pure _
  · apply (v.corpus.steady_files _).bind
    intro tests
    apply (steady_ofExcept _).bind
    intro issue
    split
    · exact steady_pure _
    · exact (steady_ofExcept _).bind fun _ => steady_pure _

/-- No check of a file looks at the notices. -/
theorem BuiltIn.steady {r : Rule} (h : r.BuiltIn) (v : FileView) : (r.check v).Steady := by
  induction h with
  | modelUnitTests => exact steady_modelUnitTests v
  | controllerJsonTests => exact steady_controllerJsonTests v
  | withSeverity h s ih => exact ih
  | _ => exact steady_ofExcept _

end Rule

/-! ### Checks of a project -/

namespace ProjectRule

theorem steady_guideTitleVersion (v : ProjectView) (s : Session) :
    (guideTitleVersion.check v s).Steady := by
  apply (steady_ofExcept _).bind
  intro version
  apply (steady_ofExcept _).bind
  intro pattern
  apply (steady_ofExcept _).bind
  intro documents
  exact (Document.steady_guides _ _).bind fun _ => steady_ofExcept _

theorem steady_guideSfraVersion (v : ProjectView) (s : Session) :
    (guideSfraVersion.check v s).Steady := by
  unfold guideSfraVersion
  dsimp only
  split
  · exact steady_pure _
  · apply (steady_ofExcept _).bind
    intro version
    apply (steady_ofExcept _).bind
    intro pattern
    apply (steady_ofExcept _).bind
    intro documents
    exact (Document.steady_guides _ _).bind fun _ => steady_ofExcept _

theorem steady_guideCompatibility (v : ProjectView) (s : Session) :
    (guideCompatibility.check v s).Steady := by
  apply (steady_ofExcept _).bind
  intro documents
  apply (Document.steady_guides _ _).bind
  intro guides
  exact (steady_ofExcept _).bind fun _ => steady_ofExcept _

theorem steady_guideAvailability (minLength : Nat) (v : ProjectView) (s : Session) :
    ((guideAvailability minLength).check v s).Steady := by
  apply (steady_ofExcept _).bind
  intro documents
  exact (Document.steady_guides _ _).bind fun _ => steady_ofExcept _

/-- No check of a project looks at the notices. -/
theorem BuiltIn.steady {r : ProjectRule} (h : r.BuiltIn) (v : ProjectView) (s : Session) :
    (r.check v s).Steady := by
  induction h with
  | guideTitleVersion => exact steady_guideTitleVersion v s
  | guideSfraVersion => exact steady_guideSfraVersion v s
  | guideCompatibility => exact steady_guideCompatibility v s
  | guideAvailability minLength => exact steady_guideAvailability minLength v s
  | withSeverity h severity ih => exact ih
  | _ => exact steady_ofExcept _

/-- A rule that asks for no documents does the same with and without them. -/
theorem BuiltIn.check_documents {r : ProjectRule} (h : r.BuiltIn)
    (hneeds : r.needsDocuments = false) (c : Corpus) (settings : Settings)
    (documents : Option (List Document)) (s : Session) :
    r.check ⟨c, settings, documents⟩ s = r.check ⟨c, settings, none⟩ s := by
  induction h with
  | versionFormat | manifestVersion | repositoryLayout => rfl
  | withSeverity h severity ih => exact ih hneeds
  | _ => cases hneeds

end ProjectRule

/-! ### Presets -/

theorem builtIn_fileRules (settings : Settings) : ∀ r ∈ fileRules settings, r.BuiltIn := by
  simp only [fileRules, List.forall_mem_cons, List.not_mem_nil, false_implies, implies_true,
    and_true]
  exact ⟨.importPaths, .noTodo, .noSessionCustom, .closeReadersWriters, .closeIterators _,
    .noOldScripts, .localServiceRegistry, .noHardcodedUrls, .noPxSizes _, .noImportant,
    .noHardcodedStrings, .noUnencodedOutput, .noInlineStyles, .modelUnitTests, .modelCallsSuper,
    .controllerJsonTests, .noReplacedEndpoints, .noControllerCalls, .jobMetadata _⟩

theorem Preset.builtIn_fileRules (p : Preset) (settings : Settings) :
    ∀ r ∈ p.fileRules settings, r.BuiltIn := by
  intro r hr
  cases p with
  | recommended => exact CartridgeAudit.builtIn_fileRules settings r hr
  | strict =>
    obtain ⟨own, hown, rfl⟩ := List.mem_map.1 hr
    exact .withSeverity (CartridgeAudit.builtIn_fileRules settings own hown) .error
  | minimal =>
    simp only [fileRules, List.mem_cons, List.not_mem_nil, or_false] at hr
    rcases hr with rfl | rfl | rfl | rfl | rfl
    · exact .importPaths
    · exact .noSessionCustom
    · exact .closeReadersWriters
    · exact .closeIterators _
    · exact .localServiceRegistry

theorem Preset.builtIn_projectRules (p : Preset) (settings : Settings) (year : Int) :
    ∀ r ∈ p.projectRules settings year, r.BuiltIn := by
  cases p with
  | recommended =>
    simp only [projectRules, List.forall_mem_cons, List.not_mem_nil, false_implies, implies_true,
      and_true]
    exact ⟨.versionFormat year, .manifestVersion, .repositoryLayout⟩
  | strict =>
    simp only [projectRules, CartridgeAudit.projectRules, List.forall_mem_cons, List.not_mem_nil,
      false_implies, implies_true, and_true]
    exact ⟨.versionFormat year, .manifestVersion, .guideTitleVersion, .guideSfraVersion,
      .guideCompatibility, .guideAvailability _, .overviewDocument, .repositoryLayout⟩
  | minimal =>
    intro r hr
    cases hr

end CartridgeAudit
