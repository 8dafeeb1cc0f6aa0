/-
CartridgeAudit/Proofs/Rule/GuideVisits.lean

Visits of guides.

A document is visited if it is a guide and covers the generation that is wanted.
Notices do not matter to an answer (`Audit.Gives`), so the guides that are passed
over with a notice are simply left out (`Document.gives_collectGuides`).

No guide makes an audit fail, whatever its text: a part that cannot be found is put
into words, and these are not empty, so they make a violation (`auditGuides_eq_ok`).
Each guide is visited once, in the order of the documents, and those in which something
is found are kept (`failed_visits`).

A setting is required where an audit cannot go on without it; one that is missing or
blank is blamed on the configuration (`required_of_not_isGiven`).
-/
import CartridgeAudit.Proofs.Project.Steps
import CartridgeAudit.Proofs.Report.Rows
import CartridgeAudit.Proofs.Script.Scopes
import CartridgeAudit.Rule.Guides

namespace CartridgeAudit

open Audit

/-! ### The guides that are wanted -/

namespace Document

variable {wanted : Option Generation} {documents : List Document}

/-- Whether a document is a guide and covers a generation, if one is wanted. -/
def isWanted (wanted : Option Generation) (d : Document) : Bool :=
  d.kind == .guide && wanted.all (ProjectRule.coversGeneration d)

/-- The guides that are wanted, in the order of the documents. -/
def wantedAmong (wanted : Option Generation) (documents : List Document) : List Document :=
  documents.filter (isWanted wanted)

theorem gives_collectGuides (wanted : Option Generation) (documents : List Document) :
    (collectGuides wanted documents).Gives (.ok (wantedAmong wanted documents)) := by
  induction documents with
  | nil => exact gives_pure []
  | cons d ds ih =>
    have htaken : isWanted wanted d = true →
        (collectGuides wanted ds >>= fun found => pure (d :: found)).Gives
          (.ok (wantedAmong wanted (d :: ds))) := by
      intro h
      rw [wantedAmong, List.filter_cons_of_pos h]
      exact ih.bind_ok (gives_pure _)
    have hpassed : isWanted wanted d = false →
        (collectGuides wanted ds).Gives (.ok (wantedAmong wanted (d :: ds))) := by
      intro h
      rwa [wantedAmong, List.filter_cons_of_neg (by simp [h])]
    unfold collectGuides
    split
    · next hkind =>
      split
      · exact htaken (by simp [isWanted, hkind])
      · next g =>
        -- what a guide does not say it covers, it does not cover
        have hcovers : isWanted (some g) d = (d.coverage.getD .unclassified).covers g := by
          rw [isWanted, hkind]
          cases hcoverage : d.coverage <;>
            simp [ProjectRule.coversGeneration, hcoverage, Coverage.covers]
        dsimp only
        split
        · next hnone =>
          rw [hnone] at hcovers
          exact (gives_notify _).bind_ok (hpassed hcovers)
        · split
          · next h => exact htaken (hcovers.trans h)
          · next h => exact hpassed (by simpa [hcovers] using h)
    · next hkind => exact hpassed (by simp [isWanted, hkind])

theorem gives_guides (h : wantedAmong wanted documents ≠ []) :
    (guides documents wanted).Gives (.ok (wantedAmong wanted documents)) := by
  unfold guides
  apply (gives_collectGuides wanted documents).bind_ok
  rw [if_neg (by simpa using h)]
  exact gives_pure _

theorem exists_gives_guides (h : wantedAmong wanted documents = []) :
    ∃ kind, (guides documents wanted).Gives (.error (.configuration (.noGuides kind))) := by
  unfold guides
  refine ⟨?kind, (gives_collectGuides wanted documents).bind_ok ?found⟩
  case found =>
    rw [if_pos (by simpa using h)]
    exact (gives_throw _).bind_error _

end Document

/-- A defect is put into words. -/
theorem DocumentError.message_ne_nil (e : DocumentError) : e.message.toList ≠ [] := by
  cases e <;> simp [DocumentError.message]

/-! ### Visits -/

/-- What is kept of a guide in which something is found. -/
def FileAudit.ofGuide (found : Document → List Violation) (d : Document) : FileAudit :=
  ⟨.ofText d.path d.content, found d⟩

/-- A session that has selected a guide, added what is found in it and saved that. -/
def Session.visit (found : Document → List Violation) (s : Session) (d : Document) : Session :=
  ((s.select (.ofText d.path d.content)).extend (found d)).save

namespace Session

/-- A file that is audited is kept if something was found in it. -/
theorem failed_save_extend (s : Session) (f : SourceFile) (vs : List Violation) :
    ((s.select f).extend vs).save.failed = s.failed ++ if vs = [] then [] else [⟨f, vs⟩] := by
  cases vs <;> simp [Opening.save, Opening.extend, select, FileAudit.failed]

theorem filesChecked_save_extend (s : Session) (f : SourceFile) (vs : List Violation) :
    ((s.select f).extend vs).save.filesChecked = s.filesChecked + 1 := by
  unfold Opening.save
  split <;> rfl

variable (found : Document → List Violation)

theorem failed_visit (s : Session) (d : Document) :
    (s.visit found d).failed =
      s.failed ++ if found d = [] then [] else [.ofGuide found d] :=
  failed_save_extend s _ (found d)

theorem filesChecked_visit (s : Session) (d : Document) :
    (s.visit found d).filesChecked = s.filesChecked + 1 :=
  s.filesChecked_save_extend _ _

/-- The guides in which something is found are kept, in their order. -/
theorem failed_visits (s : Session) (guides : List Document) :
    (guides.foldl (visit found) s).failed =
      s.failed ++ (guides.filter (found · ≠ [])).map (.ofGuide found) := by
  induction guides generalizing s with
  | nil => simp
  | cons d guides ih =>
    rw [List.foldl_cons, ih, failed_visit, List.append_assoc]
    by_cases h : found d = [] <;> simp [h]

theorem filesChecked_visits (s : Session) (guides : List Document) :
    (guides.foldl (visit found) s).filesChecked = s.filesChecked + guides.length := by
  induction guides generalizing s with
  | nil => rfl
  | cons d guides ih =>
    rw [List.foldl_cons, ih, filesChecked_visit, List.length_cons]
    omega

end Session

namespace ProjectRule

theorem foldlM_add (o : Opening) (issues : List (Text × Nat)) :
    issues.foldlM (fun (o : Opening) (text, offset) => o.add text offset) o =
      (issues.mapM fun i => Violation.new i.1 i.2).map o.extend := by
  induction issues generalizing o with
  | nil => simp [Opening.extend, pure, Except.pure, Except.map]
  | cons i issues ih =>
    rw [List.foldlM_cons, List.mapM_cons]
    show (o.add i.1 i.2 >>= _) = _
    rw [Opening.add]
    cases Violation.new i.1 i.2 with
    | error e => rfl
    | ok v =>
      show List.foldlM _ (o.extend [v]) issues = _
      rw [ih]
      cases issues.mapM fun i => Violation.new i.1 i.2 with
      | error e => rfl
      | ok vs => simp [Opening.extend, Except.map, pure, Except.pure, bind, Except.bind]

/-- The audit of a file makes a violation of every issue. -/
theorem auditFile_eq (s : Session) (f : SourceFile) (issues : List (Text × Nat)) :
    auditFile s f issues =
      (issues.mapM fun i => Violation.new i.1 i.2).map fun found =>
        ((s.select f).extend found).save := by
  rw [auditFile, foldlM_add]
  cases issues.mapM fun i => Violation.new i.1 i.2 <;> rfl

/-- Audits of guides do not fail if the issues of all guides make violations. -/
theorem auditGuides_eq_ok {check : Document → Except DocumentError (List Text)}
    {found : Document → List Violation} {guides : List Document}
    (h : ∀ d ∈ guides, ((guideIssues check d).mapM fun m => Violation.new m 0) = .ok (found d))
    (s : Session) : auditGuides check s guides = .ok (guides.foldl (Session.visit found) s) := by
  induction guides generalizing s with
  | nil => rfl
  | cons d guides ih =>
    obtain ⟨hd, hguides⟩ := List.forall_mem_cons.1 h
    have hvisit : auditFile s (.ofText d.path d.content)
        ((guideIssues check d).map fun issue => (issue, 0)) = .ok (s.visit found d) := by
      rw [auditFile_eq, List.mapM_map]
      show ((guideIssues check d).mapM fun m => Violation.new m 0).map _ = _
      rw [hd]
      rfl
    rw [auditGuides, List.foldlM_cons, hvisit]
    exact ih hguides _

end ProjectRule

/-! ### Settings -/

namespace Settings

variable {value : Option String}

/-- Whether a value is configured: there, and not blank. -/
def IsGiven (value : Option String) : Prop :=
  ∃ t, value = some t ∧ ∃ x ∈ t.toList, Text.isBlank x = false

/-- A configured value, without the blanks around it. -/
def versionOf (value : Option String) : Text := Text.trim (value.getD "").toList

theorem required_of_isGiven (h : IsGiven value) (key : String) :
    required value key = .ok (versionOf value) := by
  obtain ⟨t, rfl, x, hx, hblank⟩ := h
  rw [required, if_neg (by simpa using Script.trim_ne_nil hx hblank)]
  rfl

theorem required_of_not_isGiven (h : ¬ IsGiven value) (key : String) :
    required value key = .error (.configuration (.settingMissing key)) := by
  have hblank : ∀ x ∈ (value.getD "").toList, Text.isBlank x = true := by
    intro x hx
    cases value with
    | none => cases hx
    | some t => exact eq_true_of_ne_false fun hno => h ⟨t, rfl, x, hx, hno⟩
  have htrim : Text.trim (value.getD "").toList = [] := by
    rw [Text.trim, Text.trimStart, List.dropWhile_eq_nil_iff.2 hblank]
    rfl
  rw [required, htrim]
  rfl

end Settings

end CartridgeAudit
