/-
CartridgeAudit/Proofs/Rule/ProjectFindings.lean

What rules on the project report, and how they fail.

These rules read no script and no template, so no scanner fails in them, and
their violations are messages, which are not empty.  So the audit of a file does
not fail (`ends_auditFile`), hence not those of all guides, and a rule fails only
if something outside is wrong (`ProjectRule.BuiltIn.alwaysEnds`).
-/
import CartridgeAudit.Proofs.Rule.Findings
import CartridgeAudit.Proofs.Rule.GuideVisits

namespace CartridgeAudit

open Audit

/-! ### Sessions -/

/-- Every violation in a session has a text. -/
def Session.HasTexts (s : Session) : Prop := ∀ audit ∈ s.failed, HaveTexts audit.violations

theorem Session.hasTexts (s : Session) : s.HasTexts := fun audit _ => haveTexts audit.violations

/-! ### Documents -/

namespace Document

theorem ends_extractText (d : Disk) (path : Path) :
    Ends AuditError.IsExternal (fun _ => True) (extractText d path) := by
  have hbytes : ∀ bytes, Ends AuditError.IsExternal (fun _ => True) (textOfBytes path bytes) := by
    intro bytes
    unfold textOfBytes
    split
    · trivial
    · trivial
    · trivial
    · split
      · trivial
      · split <;> trivial
  unfold extractText
  split
  · trivial
  · trivial
  · exact hbytes _

theorem alwaysEnds_load (c : Corpus) :
    (load c).AlwaysEnds AuditError.IsExternal fun _ => True := by
  have htexts : ∀ files : List SourceFile,
      Ends AuditError.IsExternal (fun texts => ∀ text ∈ texts, True)
        (files.mapM fun f => do return (f.path, ← extractText c.disk f.path)) := by
    intro files
    apply ends_mapM
    intro f _
    apply (ends_extractText c.disk f.path).bind
    intro text _
    exact True.intro
  unfold load
  apply (c.alwaysEnds_files _).bind
  intro files _
  split
  · apply (alwaysEnds_throw trivial).bind
    intro _ h
    exact (h : False).elim
  · apply (alwaysEnds_ofExcept (htexts files)).bind
    intro texts _
    exact alwaysEnds_pure trivial

theorem alwaysEnds_collectGuides (wanted : Option Generation) (documents : List Document) :
    (collectGuides wanted documents).AlwaysEnds AuditError.IsExternal fun _ => True := by
  induction documents with
  | nil => exact alwaysEnds_pure trivial
  | cons d ds ih =>
    have hmore : ∀ f : List Document → List Document,
        (collectGuides wanted ds >>= fun found => pure (f found)).AlwaysEnds AuditError.IsExternal
          fun _ => True := by
      intro f
      apply ih.bind
      intro found _
      exact alwaysEnds_pure trivial
    unfold collectGuides
    split
    · split
      · exact hmore _
      · dsimp only
        split
        · apply (alwaysEnds_notify _).bind
          intro _ _
          exact ih
        · split
          · exact hmore _
          · exact ih
    · exact ih

theorem alwaysEnds_guides (documents : List Document) (wanted : Option Generation) :
    (guides documents wanted).AlwaysEnds AuditError.IsExternal fun _ => True := by
  unfold guides
  apply (alwaysEnds_collectGuides wanted documents).bind
  intro found _
  split
  · apply (alwaysEnds_throw trivial).bind
    intro _ h
    exact (h : False).elim
  · exact alwaysEnds_pure trivial

end Document

/-! ### Audits -/

namespace ProjectRule

variable {s : Session}

/-- Issues with texts become violations. -/
theorem ends_auditFile {E : AuditError → Prop} (f : SourceFile) {issues : List (Text × Nat)}
    (hissues : ∀ issue ∈ issues, issue.1 ≠ []) :
    Ends E Session.HasTexts (auditFile s f issues) := by
  have hopening : Ends E (fun _ => True)
      (issues.foldlM (fun (o : Opening) issue => o.add issue.1 issue.2) (s.select f)) := by
    apply ends_foldlM trivial
    rintro ⟨text, offset⟩ hissue o -
    exact (ends_new (hissues _ hissue) offset).map fun _ _ => trivial
  apply hopening.bind
  intro o _
  exact o.save.hasTexts

/-- The issues of a guide have texts if the check says so; a defect is put into
words. -/
theorem ends_auditGuides {E : AuditError → Prop}
    {check : Document → Except DocumentError (List Text)}
    (hcheck : ∀ d, Ends (fun _ => True) (fun issues => ∀ issue ∈ issues, issue ≠ []) (check d))
    (guides : List Document) : Ends E Session.HasTexts (auditGuides check s guides) := by
  apply ends_foldlM s.hasTexts
  intro d _ s _
  apply ends_auditFile
  intro issue hissue
  obtain ⟨text, htext, rfl⟩ := List.mem_map.1 hissue
  have hd := hcheck d
  unfold guideIssues at htext
  cases hanswer : check d with
  | error e =>
    rw [hanswer] at htext
    obtain rfl := List.mem_singleton.1 htext
    exact e.message_ne_nil
  | ok issues =>
    rw [hanswer] at htext hd
    exact hd text htext

/-- A guide is checked in one of its parts: nothing is wrong with a good part, and
anything else is put into words. -/
theorem ends_auditParts {E : AuditError → Prop}
    (part : Document → Except DocumentError Text) (good : Text → Prop) [DecidablePred good]
    {message : Document → Text → Text} (hmessage : ∀ d t, message d t ≠ [])
    (guides : List Document) :
    Ends E Session.HasTexts
      (auditGuides (fun d => do
          let t ← part d
          if good t then return []
          return [message d t])
        s guides) := by
  apply ends_auditGuides
  intro d
  apply (ends_somehow (part d)).bind
  intro t _
  split
  · exact List.forall_mem_nil _
  · exact List.forall_mem_singleton.2 (hmessage d t)

/-! ### Configuration and manifest -/

theorem ends_required (value : Option String) (key : String) :
    Ends AuditError.IsExternal (fun _ => True) (Settings.required value key) := by
  unfold Settings.required
  dsimp only
  split <;> trivial

theorem ends_loadManifest (c : Corpus) :
    Ends AuditError.IsExternal (fun _ => True) (loadManifest c) := by
  have hread : ∀ path, Ends AuditError.IsExternal (fun _ => True) (Manifest.read c.disk path) := by
    intro path
    unfold Manifest.read
    split
    · trivial
    · split <;> trivial
  unfold loadManifest
  dsimp only
  split
  · apply (hread _).bind
    intro manifest _
    exact True.intro
  · trivial

theorem ends_textOf (f : SourceFile) : Ends AuditError.IsExternal (fun _ => True) (textOf f) := by
  unfold textOf
  split <;> trivial

theorem ends_documents (v : ProjectView) :
    Ends AuditError.IsExternal (fun _ => True) v.documents := by
  unfold ProjectView.documents
  split <;> trivial

theorem ne_nil_of_mem_versionIssues (shortYear : Int) (version : Text) :
    ∀ issue ∈ versionIssues shortYear version, issue.1 ≠ [] := by
  unfold versionIssues
  dsimp only
  split
  · rw [List.forall_mem_append]
    constructor
    · split
      · exact List.forall_mem_nil _
      · exact List.forall_mem_singleton.2 (by simp)
    · split
      · exact List.forall_mem_singleton.2 (by simp)
      · exact List.forall_mem_nil _
  · exact List.forall_mem_singleton.2 (by simp)

theorem ne_nil_of_mem_manifestIssues (expected : Text) (found : Option String) (t : Text) :
    ∀ issue ∈ manifestIssues expected found t, issue.1 ≠ [] := by
  unfold manifestIssues
  split
  · exact List.forall_mem_singleton.2 (by simp)
  · split
    · exact List.forall_mem_nil _
    · exact List.forall_mem_singleton.2 (by simp)

theorem alwaysEnds_versionFormat (year : Int) (v : ProjectView) :
    ((versionFormat year).check v s).AlwaysEnds AuditError.IsExternal Session.HasTexts := by
  apply alwaysEnds_ofExcept
  apply (ends_required _ _).bind
  intro version _
  exact ends_auditFile _ (ne_nil_of_mem_versionIssues _ _)

theorem alwaysEnds_manifestVersion (v : ProjectView) :
    (manifestVersion.check v s).AlwaysEnds AuditError.IsExternal Session.HasTexts := by
  apply alwaysEnds_ofExcept
  apply (ends_required _ _).bind
  intro expected _
  apply (ends_loadManifest _).bind
  rintro ⟨file, manifest⟩ _
  apply (ends_textOf file).bind
  intro t _
  exact ends_auditFile _ (ne_nil_of_mem_manifestIssues _ _ _)

theorem alwaysEnds_repositoryLayout (v : ProjectView) :
    (repositoryLayout.check v s).AlwaysEnds AuditError.IsExternal Session.HasTexts := by
  apply alwaysEnds_ofExcept
  apply (ends_loadManifest _).bind
  rintro ⟨file, manifest⟩ _
  dsimp only
  split
  · exact s.hasTexts
  · next paths heq =>
    split
    · exact s.hasTexts
    · have haudit : ∀ base offset, Ends AuditError.IsExternal Session.HasTexts
          (auditFile s file [("paths.base is \"".toList ++ base ++ ['"'], offset)]) := by
        intro base offset
        exact ends_auditFile _ (List.forall_mem_singleton.2 (by simp))
      split
      · exact haudit _ 0
      · apply ((ends_textOf file).map (Q := fun _ => True) fun _ _ => trivial).bind
        intro offset _
        exact haudit _ offset

/-! ### Guides -/

theorem alwaysEnds_overviewDocument (v : ProjectView) :
    (overviewDocument.check v s).AlwaysEnds AuditError.IsExternal Session.HasTexts := by
  apply alwaysEnds_ofExcept
  apply (ends_documents v).bind
  intro documents _
  apply ends_auditFile
  split
  · exact List.forall_mem_nil _
  · exact List.forall_mem_singleton.2 (by simp)

theorem alwaysEnds_guideTitleVersion (v : ProjectView) :
    (guideTitleVersion.check v s).AlwaysEnds AuditError.IsExternal Session.HasTexts := by
  apply (alwaysEnds_ofExcept (ends_required _ _)).bind
  intro version _
  apply (alwaysEnds_ofExcept (Pattern.Template.ends_build (fun _ h => h) _ _)).bind
  intro pattern _
  apply (alwaysEnds_ofExcept (ends_documents v)).bind
  intro documents _
  apply (Document.alwaysEnds_guides documents none).bind
  intro guides _
  exact alwaysEnds_ofExcept (ends_auditParts _ _ (by simp) guides)

theorem alwaysEnds_guideSfraVersion (v : ProjectView) :
    (guideSfraVersion.check v s).AlwaysEnds AuditError.IsExternal Session.HasTexts := by
  unfold guideSfraVersion
  dsimp only
  split
  · exact alwaysEnds_pure s.hasTexts
  · apply (alwaysEnds_ofExcept (ends_required _ _)).bind
    intro version _
    apply (alwaysEnds_ofExcept (Pattern.Template.ends_build (fun _ h => h) _ _)).bind
    intro pattern _
    apply (alwaysEnds_ofExcept (ends_documents v)).bind
    intro documents _
    apply (Document.alwaysEnds_guides documents _).bind
    intro guides _
    exact alwaysEnds_ofExcept (ends_auditParts _ _ (by simp) guides)

theorem ends_ofSetting (label : String) (template : Pattern.Template) (any : Pattern.Regex)
    (onlyFor : Option Generation) (value : Option String) (key : String) :
    Ends AuditError.IsExternal (fun _ => True)
      (Requirement.ofSetting label template any onlyFor value key) := by
  apply (ends_required _ _).bind
  intro version _
  apply (Pattern.Template.ends_build (fun _ h => h) _ _).bind
  intro pattern _
  exact True.intro

theorem ends_ifCovered (guides : List Document) (g : Generation)
    {make : Option Generation → Except AuditError Requirement}
    (hmake : ∀ onlyFor, Ends AuditError.IsExternal (fun _ => True) (make onlyFor)) :
    Ends AuditError.IsExternal (fun _ => True) (Requirement.ifCovered guides g make) := by
  unfold Requirement.ifCovered
  split
  · apply (hmake _).bind
    intro requirement _
    exact True.intro
  · trivial

theorem ends_compatibilityRequirements (p : ProjectSettings) (guides : List Document) :
    Ends AuditError.IsExternal (fun _ => True) (compatibilityRequirements p guides) := by
  apply (ends_ofSetting _ _ _ _ _ _).bind
  intro platform _
  apply (ends_ofSetting _ _ _ _ _ _).bind
  intro mode _
  apply (ends_ifCovered guides .sfra fun onlyFor => ends_ofSetting _ _ _ onlyFor _ _).bind
  intro sfra _
  apply (ends_ifCovered guides .controllers fun onlyFor => ends_ofSetting _ _ _ onlyFor _ _).bind
  intro sitegen _
  exact True.intro

theorem alwaysEnds_guideCompatibility (v : ProjectView) :
    (guideCompatibility.check v s).AlwaysEnds AuditError.IsExternal Session.HasTexts := by
  apply (alwaysEnds_ofExcept (ends_documents v)).bind
  intro documents _
  apply (Document.alwaysEnds_guides documents none).bind
  intro guides _
  apply (alwaysEnds_ofExcept (ends_compatibilityRequirements _ guides)).bind
  intro requirements _
  apply alwaysEnds_ofExcept
  apply ends_auditGuides
  intro d
  apply (ends_somehow (Document.sectionNamed d.content "compatibility".toList)).bind
  intro body _ issue hissue
  obtain ⟨r, -, rfl⟩ := List.mem_map.1 hissue
  simp [Requirement.issue]

theorem alwaysEnds_guideAvailability (minLength : Nat) (v : ProjectView) :
    ((guideAvailability minLength).check v s).AlwaysEnds AuditError.IsExternal
      Session.HasTexts := by
  apply (alwaysEnds_ofExcept (ends_documents v)).bind
  intro documents _
  apply (Document.alwaysEnds_guides documents none).bind
  intro guides _
  exact alwaysEnds_ofExcept (ends_auditParts _ _ (by simp) guides)

/-- **A check of the project** fails only for something outside. -/
theorem BuiltIn.alwaysEnds {r : ProjectRule} (h : r.BuiltIn) (v : ProjectView) :
    (r.check v s).AlwaysEnds AuditError.IsExternal Session.HasTexts := by
  induction h with
  | versionFormat year => exact alwaysEnds_versionFormat year v
  | manifestVersion => exact alwaysEnds_manifestVersion v
  | guideTitleVersion => exact alwaysEnds_guideTitleVersion v
  | guideSfraVersion => exact alwaysEnds_guideSfraVersion v
  | guideCompatibility => exact alwaysEnds_guideCompatibility v
  | guideAvailability minLength => exact alwaysEnds_guideAvailability minLength v
  | overviewDocument => exact alwaysEnds_overviewDocument v
  | repositoryLayout => exact alwaysEnds_repositoryLayout v
  | withSeverity h severity ih => exact ih

end ProjectRule

end CartridgeAudit
