/-
CartridgeAudit/Proofs/Rule/Findings.lean

What rules on files report, and how they fail.

A violation has a text, and to make one of an empty text fails (`ends_new`).
Rules do not try to: where the text comes from a match, the expression is proper;
where it comes from a capture, the capture is a match of a proper expression or
ends in a way that was tested; all other texts are messages or names.  So a check
of a selected file fails only if something outside is wrong or a scanner cannot go
on (`Rule.BuiltIn.alwaysEnds`).
-/
import CartridgeAudit.Proofs.Markup.OutputTag
import CartridgeAudit.Proofs.Pattern.Injection
import CartridgeAudit.Proofs.Project.Selection
import CartridgeAudit.Proofs.Rule.BuiltIn
import CartridgeAudit.Proofs.Script.Scopes

namespace CartridgeAudit

open Audit Cursor

/-! ### Failures and violations -/

/-- A failure that lies in the files or the configuration: no scanner's, and no
bad call. -/
def AuditError.IsExternal : AuditError → Prop
  | .malformedInput _ _ | .scan _ | .invalidArgument _ => False
  | _ => True

/-- How the check of a file may fail. -/
def AuditError.IsOfCheck (e : AuditError) : Prop := e.IsExternal ∨ e.IsScan

/-- Every violation has a text. -/
def HaveTexts (found : List Violation) : Prop := ∀ v ∈ found, v.text ≠ []

theorem haveTexts (found : List Violation) : HaveTexts found := fun v _ => v.text_ne_nil

section

variable {E : AuditError → Prop}

/-- To make a violation fails for an empty text only. -/
theorem ends_new {text : Text} (h : text ≠ []) (offset : Nat) :
    Ends E (fun _ => True) (Violation.new text offset) := by
  obtain ⟨v, hv⟩ := Violation.exists_new h offset
  rw [hv]
  trivial

/-- A violation on its own. -/
theorem ends_one {text : Text} (h : text ≠ []) (offset : Nat) :
    Ends E HaveTexts (do return [← Violation.new text offset]) :=
  (ends_new h offset).bind fun v _ => haveTexts [v]

/-- Violations, one for each member of a list. -/
theorem ends_mapM_new {α : Type} {l : List α} {text : α → Text} (offset : α → Nat)
    (h : ∀ x ∈ l, text x ≠ []) :
    Ends E HaveTexts (l.mapM fun x => Violation.new (text x) (offset x)) :=
  (ends_mapM fun x hx => ends_new (h x hx) (offset x)).imp (fun _ he => he) fun found _ =>
    haveTexts found

namespace Pattern

open Regex

theorem Regex.ends_violationsWhere {r : Regex} (hr : r.isProper = true) (bad : Match → Bool)
    (t : Text) : Ends E HaveTexts (r.violationsWhere bad t) :=
  ends_mapM_new _ fun _ hm => text_ne_nil_of_mem_matchesIn hr (List.mem_filter.1 hm).1

theorem Regex.ends_violations {r : Regex} (hr : r.isProper = true) (t : Text) :
    Ends E HaveTexts (r.violations t) :=
  ends_mapM_new _ fun _ hm => text_ne_nil_of_mem_matchesIn hr hm

theorem Template.ends_build (hE : ∀ e, e.IsExternal → E e) (t : Template)
    (slots : List (Text × List Text)) : Ends E (fun _ => True) (t.build slots) := by
  unfold build
  split
  · trivial
  · exact hE _ trivial

end Pattern

end

/-! ### Selections -/

theorem ends_globOf (pattern : String) :
    Ends AuditError.IsExternal (fun _ => True) (globOf pattern) := by
  unfold globOf
  split
  · trivial
  · trivial

theorem Corpus.ends_visit (p : Path) (t : Tree) :
    Ends AuditError.IsExternal (fun _ => True) (visit p t) := by
  cases hvisit : visit p t with
  | ok _ => trivial
  | error e =>
    obtain ⟨cause, -, rfl⟩ := Corpus.visit_eq_error_iff.1 hvisit
    trivial

/-- Selecting files fails only for a bad pattern or a directory that cannot be read, and
selects names with the right endings. -/
theorem Corpus.alwaysEnds_files (c : Corpus) (q : FileQuery) :
    (c.files q).AlwaysEnds AuditError.IsExternal fun fs =>
      ∀ f ∈ fs, q.meetsEndings f.path.fileName = true := by
  unfold files
  extract_lets dir
  cases c.disk.directory? dir with
  | none =>
    apply (alwaysEnds_notify _).bind
    intro _ _
    exact alwaysEnds_pure (List.forall_mem_nil _)
  | some t =>
    apply (alwaysEnds_ofExcept (ends_mapM fun pattern _ => ends_globOf pattern)).bind
    intro patterns _
    have hwalk : Ends AuditError.IsExternal (fun _ => True) (filesBelow patterns dir t) :=
      (ends_mapM fun x _ => ends_visit (dir.descend x.1) x.2).bind fun _ _ => trivial
    apply (alwaysEnds_ofExcept hwalk).bind
    intro found _
    apply alwaysEnds_pure
    intro f hf
    obtain ⟨⟨path, content⟩, hpath, rfl⟩ := List.mem_map.1 hf
    have hmeets := (List.mem_filter.1 hpath).2
    unfold meets at hmeets
    rw [Bool.and_eq_true, Bool.and_eq_true] at hmeets
    exact hmeets.1.1

theorem Corpus.meetsEndings_of_mem_files {c : Corpus} {q : FileQuery} {files : List SourceFile}
    (h : (c.files q).result = .ok files) :
    ∀ f ∈ files, q.meetsEndings f.path.fileName = true := by
  have hends := c.alwaysEnds_files q []
  rw [Audit.result] at h
  rw [h] at hends
  exact hends

/-! ### Scripts -/

namespace Rule

open Pattern Regex

theorem ends_sessionCustomUses (t : Text) :
    Ends AuditError.IsOfCheck HaveTexts (sessionCustomUses t) := by
  have hproper : (Template.aroundSession.fill
      (.choice (Template.sessionNames (sessionAliases t)))).isProper = true := by
    simp [Template.aroundSession, Around.fill, isProper_sequence, isProper]
  unfold sessionCustomUses
  rw [Template.build_eq_ok (Template.sessionCustom_build? _)]
  exact Regex.ends_violations hproper t

theorem ends_unclosedBindings (t : Text) :
    Ends AuditError.IsOfCheck HaveTexts (unclosedBindings t) := by
  unfold unclosedBindings
  generalize openedBindings t = opened
  cases opened with
  | nil => exact haveTexts []
  | cons first rest =>
    have hclosed : Ends AuditError.IsOfCheck (fun _ => True)
        (closedNames ((first :: rest).map (·.name)) t) := by
      apply (Template.ends_build (fun _ => .inl) _ _).bind
      intro calls _
      trivial
    apply hclosed.bind
    intro closed _
    split
    · exact haveTexts []
    · exact ends_one (by simp) _

theorem ends_classAliases (t name : Text) :
    Ends AuditError.IsOfCheck (fun _ => True) (classAliases t name) := by
  apply (Template.ends_build (fun _ => .inl) _ _).bind
  intro bound _
  apply (Template.ends_build (fun _ => .inl) _ _).bind
  intro direct _
  trivial

/-- The functions of the script are asked for, which is where the check of a
call may fail. -/
theorem ends_callViolation (t : Text) {call : Match} (hcall : call.text ≠ []) :
    Ends AuditError.IsOfCheck (fun _ => True) (callViolation (Script.functions t) t call) := by
  apply ((Script.ends_functions t).weaken fun _ => .inr).bind
  intro fs _
  apply (Template.ends_build (fun _ => .inl) _ _).bind
  intro closing _
  split
  · trivial
  · apply (ends_new hcall _).bind
    intro v _
    trivial

theorem ends_unclosedOfClass (t : Text) (k : QueryClass) :
    Ends AuditError.IsOfCheck HaveTexts (unclosedOfClass (Script.functions t) t k) := by
  apply (ends_classAliases t k.name).bind
  intro aliases _
  split
  · exact haveTexts []
  · rw [Template.build_eq_ok (Template.methodCallSaved_build? _ _)]
    have hproper : (Template.callOf (slot aliases) (slot k.methods)).isProper = true := by
      simp [Template.callOf, Template.assignment, isProper_sequence, isProper, run1]
    apply (ends_mapM fun call hcall =>
      ends_callViolation t (text_ne_nil_of_mem_matchesIn hproper hcall)).bind
    intro vs _
    exact haveTexts _

theorem ends_unclosedIterators (classes : List QueryClass) (t : Text) :
    Ends AuditError.IsOfCheck HaveTexts (unclosedIterators classes t) := by
  apply (ends_mapM fun k _ => ends_unclosedOfClass t k).bind
  intro found _
  exact haveTexts _

/-! ### Models and controllers -/

theorem ends_constructorsWithoutSuper (t : Text) :
    Ends AuditError.IsOfCheck HaveTexts (constructorsWithoutSuper t) := by
  have hconstructors : Ends AuditError.IsOfCheck (fun fs => ∀ f ∈ fs, Text.trim f.head ≠ [])
      (Script.constructors t) := by
    apply ((Script.ends_functions t).weaken fun _ => .inr).bind
    intro fs hfs f hf
    exact hfs f (List.mem_filter.1 hf).1
  apply hconstructors.bind
  intro fs hfs
  exact ends_mapM_new _ fun f hf => hfs f (List.mem_filter.1 hf).1

/-- The name of a replaced endpoint is a word. -/
theorem ends_replacedEndpoints (t : Text) :
    Ends AuditError.IsOfCheck HaveTexts (replacedEndpoints t) := by
  have hname : Catalog.replacedRoute.Captures 1 fun a b q => (run1 .word).Matches a b ∧ q = b :=
    (captures_capture rfl).seq_right _
  apply ends_mapM_new
  intro m hm
  obtain ⟨a, b, hgroup, hword, -⟩ := hname.exists_group? hm
  have hlt := lt_of_matches rfl hword
  rw [Match.groupText, hgroup]
  exact (leads_upTo hlt.le).lt_iff.1 hlt

theorem ends_jobViolations (site : String) (t : Text) :
    Ends AuditError.IsOfCheck HaveTexts (jobViolations site t) := by
  have hmodules : Ends AuditError.IsOfCheck HaveTexts (oldModules t) := by
    apply ends_mapM_new (fun s : Cursor × Cursor => s.1.offset)
    rintro ⟨start, stop⟩ hs
    obtain ⟨m, -, hs⟩ := List.mem_filterMap.1 hs
    obtain ⟨⟨a, b⟩, -, hs⟩ := Option.bind_eq_some_iff.1 hs
    obtain ⟨hends, hs⟩ := Option.ite_none_right_eq_some.1 hs
    obtain ⟨rfl, rfl⟩ := Prod.mk.inj (Option.some.inj hs)
    -- the empty text has no such ending
    rintro hnil
    rw [hnil] at hends
    exact absurd hends (by decide)
  apply (Regex.ends_violationsWhere rfl _ t).bind
  intro foreign _
  apply hmodules.bind
  intro modules _
  exact haveTexts _

/-! ### Templates -/

theorem ends_hardcodedStrings (t : Text) :
    Ends AuditError.IsOfCheck HaveTexts (Markup.hardcodedStrings t) := by
  rw [Markup.hardcodedStrings_eq]
  split
  · exact .inr ⟨_, rfl⟩
  · exact ends_mapM_new _ Markup.upTo_ne_nil_of_mem_literalRuns

theorem ends_outputTags (t : Text) :
    Ends AuditError.IsOfCheck HaveTexts (Markup.outputTags t) := by
  rw [Markup.outputTags_eq]
  split
  · exact .inr ⟨_, rfl⟩
  · next found hfound => exact ends_mapM_new _ (Markup.outputReading_of_eq hfound).upTo_ne_nil

theorem ends_unencodedOutput (t : Text) :
    Ends AuditError.IsOfCheck HaveTexts (unencodedOutput t) := by
  apply (ends_outputTags t).bind
  intro found _
  exact haveTexts _

theorem ends_inlineStyleTags (t : Text) :
    Ends AuditError.IsOfCheck HaveTexts (Markup.inlineStyleTags t) := by
  rw [Markup.inlineStyleTags_eq]
  split
  · exact .inr ⟨_, rfl⟩
  · exact .inr ⟨_, rfl⟩
  · next found hfound _ => exact ends_mapM_new _ (Markup.upTo_ne_nil_of_mem_styledTags hfound)

/-! ### Checks of files -/

theorem alwaysEnds_modelUnitTests (v : FileView) :
    (modelUnitTests.check v).AlwaysEnds AuditError.IsOfCheck HaveTexts := by
  apply ((v.corpus.alwaysEnds_files Selection.unitTests).weaken fun _ => .inl).bind
  intro tests _
  split
  · exact alwaysEnds_pure (haveTexts [])
  · apply (alwaysEnds_ofExcept (ends_new (by simp) 0)).bind
    intro v _
    exact alwaysEnds_pure (haveTexts [v])

/-- What is wrong with the tests of a controller is said in words. -/
theorem ends_jsonTestIssue (name : String) (endpoints : List Script.Endpoint)
    (tests : List SourceFile) :
    Ends AuditError.IsOfCheck (fun issue => ∀ message ∈ issue, message.toList ≠ [])
      (jsonTestIssue name endpoints tests) := by
  unfold jsonTestIssue
  dsimp only
  split
  · rintro _ ⟨⟩
    simp
  · split
    · exact .inl trivial
    · split
      · rintro _ ⟨⟩
        simp
      · rintro _ ⟨⟩

theorem alwaysEnds_controllerJsonTests (v : FileView) :
    (controllerJsonTests.check v).AlwaysEnds AuditError.IsOfCheck HaveTexts := by
  apply (alwaysEnds_ofExcept ((Script.ends_endpoints v.content).weaken
    fun _ => .inr)).bind
  intro all _
  dsimp only
  split
  · exact alwaysEnds_pure (haveTexts [])
  · apply ((v.corpus.alwaysEnds_files Selection.integrationTests).weaken
      fun _ => .inl).bind
    intro tests _
    apply (alwaysEnds_ofExcept (ends_jsonTestIssue _ _ tests)).bind
    intro issue hissue
    split
    · exact alwaysEnds_pure (haveTexts [])
    · next message =>
      apply (alwaysEnds_ofExcept (ends_new (hissue message rfl) _)).bind
      intro found _
      exact alwaysEnds_pure (haveTexts [found])

/-- A script in the old format is told by the end of its name. -/
theorem alwaysEnds_noOldScripts {v : FileView}
    (hv : noOldScripts.query.meetsEndings v.file.path.fileName = true) :
    (noOldScripts.check v).AlwaysEnds AuditError.IsOfCheck HaveTexts := by
  -- the empty name does not meet the query
  have hname : v.file.path.fileName.toList ≠ [] := by
    intro hnil
    unfold FileQuery.meetsEndings at hv
    rw [hnil] at hv
    exact absurd hv (by decide)
  exact alwaysEnds_ofExcept (ends_one hname 0)

/-- **A check of a selected file** fails only for something outside or in a
scanner, and what it finds has texts. -/
theorem BuiltIn.alwaysEnds {r : Rule} (h : r.BuiltIn) {v : FileView}
    (hv : r.query.meetsEndings v.file.path.fileName = true) :
    (r.check v).AlwaysEnds AuditError.IsOfCheck HaveTexts := by
  induction h with
  | importPaths => exact alwaysEnds_ofExcept (ends_violationsWhere rfl _ _)
  | noTodo => exact alwaysEnds_ofExcept (ends_violations rfl _)
  | noSessionCustom => exact alwaysEnds_ofExcept (ends_sessionCustomUses _)
  | closeReadersWriters => exact alwaysEnds_ofExcept (ends_unclosedBindings _)
  | closeIterators classes => exact alwaysEnds_ofExcept (ends_unclosedIterators classes _)
  | noOldScripts => exact alwaysEnds_noOldScripts hv
  | localServiceRegistry => exact alwaysEnds_ofExcept (ends_violations rfl _)
  | noHardcodedUrls => exact alwaysEnds_ofExcept (ends_violationsWhere rfl _ _)
  | noPxSizes maxPx => exact alwaysEnds_ofExcept (ends_violationsWhere rfl _ _)
  | noImportant => exact alwaysEnds_ofExcept (ends_violations rfl _)
  | noHardcodedStrings => exact alwaysEnds_ofExcept (ends_hardcodedStrings _)
  | noUnencodedOutput => exact alwaysEnds_ofExcept (ends_unencodedOutput _)
  | noInlineStyles => exact alwaysEnds_ofExcept (ends_inlineStyleTags _)
  | modelUnitTests => exact alwaysEnds_modelUnitTests v
  | modelCallsSuper => exact alwaysEnds_ofExcept (ends_constructorsWithoutSuper _)
  | controllerJsonTests => exact alwaysEnds_controllerJsonTests v
  | noReplacedEndpoints => exact alwaysEnds_ofExcept (ends_replacedEndpoints _)
  | noControllerCalls => exact alwaysEnds_ofExcept (ends_violations rfl _)
  | jobMetadata site => exact alwaysEnds_ofExcept (ends_jobViolations site _)
  | withSeverity h s ih => exact ih hv

end Rule

end CartridgeAudit
