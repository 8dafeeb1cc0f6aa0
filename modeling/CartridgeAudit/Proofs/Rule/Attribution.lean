/-
CartridgeAudit/Proofs/Rule/Attribution.lean

Failures are attributed.

No failure of an audit is a bad call, and a failure of a scanner leaves an audit
only with the path of the file that could not be read (`alwaysEnds_run`): the
check of one file sees to that, and the checks of all files of a rule and the
run of all rules keep it.  An audit fails with a path and a scanner's failure
exactly if it comes to a check in which that scanner fails
(`run_eq_malformedInput_iff`).  The main result, `run_attributes`, states both
for the rules of a preset, together with what makes them true: scopes are asked
for only where they open, and no violation is without a text.
-/
import CartridgeAudit.Proofs.Rule.Independence
import CartridgeAudit.Proofs.Rule.ProjectFindings

namespace CartridgeAudit

open Audit

/-- How an audit may fail: for something outside, or with the path of a file
that a scanner could not read. -/
def AuditError.IsAttributed (e : AuditError) : Prop :=
  e.IsExternal ∨ ∃ path cause, e = .malformedInput path cause

theorem AuditError.not_isAttributed {e : AuditError} (h : ¬ e.IsExternal)
    (hnamed : ∀ path cause, e ≠ .malformedInput path cause) : ¬ e.IsAttributed := by
  rintro (hexternal | ⟨path, cause, rfl⟩)
  · exact h hexternal
  · exact hnamed path cause rfl

theorem AuditError.IsExternal.inFile_eq {e : AuditError} (h : e.IsExternal) (path : String) :
    e.inFile path = e := by
  cases e with
  | scan => cases h
  | _ => rfl

namespace Analysis

/-! ### How an audit fails -/

section

variable {α : Type} {P : α → Prop} {x : Audit α}

/-- A step that fails as a check does fails with a path once it is attributed to
a file. -/
theorem alwaysEnds_inFile (hx : x.AlwaysEnds AuditError.IsOfCheck P) (path : Path) :
    (Audit.inFile path x).AlwaysEnds AuditError.IsAttributed P := by
  intro notices
  have hends := hx notices
  rw [inFile_answer]
  cases hanswer : (x notices).1 with
  | error e =>
    rw [hanswer] at hends
    rcases hends with he | ⟨cause, rfl⟩
    · show (e.inFile path.text).IsAttributed
      rw [he.inFile_eq]
      exact .inl he
    · exact .inr ⟨path.text, cause, rfl⟩
  | ok a =>
    rw [hanswer] at hends
    exact hends

/-- The path is that of the file, and a scanner has failed. -/
theorem inFile_eq_malformedInput_iff (hx : x.AlwaysEnds AuditError.IsOfCheck P) {path : Path}
    {named : String} {cause : ScanError} :
    (Audit.inFile path x).result = .error (.malformedInput named cause) ↔
      path.text = named ∧ x.result = .error (.scan cause) := by
  have hends := hx []
  rw [Audit.result, Audit.result, inFile_answer]
  cases hanswer : (x []).1 with
  | error e =>
    rw [hanswer] at hends
    rcases hends with he | ⟨own, rfl⟩
    · show Except.error (e.inFile path.text) = _ ↔ _
      rw [he.inFile_eq]
      constructor
      · intro h
        obtain rfl := Except.error.inj h
        exact he.elim
      · rintro ⟨-, h⟩
        obtain rfl := Except.error.inj h
        exact he.elim
    · simp [Except.mapError, AuditError.inFile]
  | ok a => simp [Except.mapError]

end

theorem alwaysEnds_checkFile (a : Analysis) {r : Rule} (h : r.BuiltIn) {f : SourceFile}
    (hf : r.query.meetsEndings f.path.fileName = true) :
    (a.checkFile r f).AlwaysEnds AuditError.IsAttributed HaveTexts := by
  unfold checkFile
  split
  · exact alwaysEnds_throw (.inl trivial)
  · next content _ =>
    exact alwaysEnds_inFile (h.alwaysEnds (v := ⟨f, content, a.corpus⟩) hf) f.path

theorem alwaysEnds_checkFiles (a : Analysis) {r : Rule} (h : r.BuiltIn) {files : List SourceFile}
    (hfiles : ∀ f ∈ files, r.query.meetsEndings f.path.fileName = true) {s : Session} :
    (a.checkFiles r files s).AlwaysEnds AuditError.IsAttributed Session.HasTexts := by
  induction files generalizing s with
  | nil => exact alwaysEnds_pure s.hasTexts
  | cons f files ih =>
    obtain ⟨hf, hrest⟩ := List.forall_mem_cons.1 hfiles
    unfold checkFiles
    apply (alwaysEnds_checkFile a h hf).bind
    intro found _
    exact ih hrest

theorem alwaysEnds_runFileRule (a : Analysis) {r : Rule} (h : r.BuiltIn) :
    (a.runFileRule r).AlwaysEnds AuditError.IsAttributed fun _ => True := by
  apply ((a.corpus.alwaysEnds_files r.query).weaken fun _ => .inl).bind
  intro files hfiles
  apply (alwaysEnds_checkFiles a h hfiles).bind
  intro s _
  exact alwaysEnds_pure trivial

theorem alwaysEnds_runProjectRule (a : Analysis) (documents : Option (List Document))
    {r : ProjectRule} (h : r.BuiltIn) :
    (a.runProjectRule documents r).AlwaysEnds AuditError.IsExternal fun _ => True := by
  apply (h.alwaysEnds _).bind
  intro s _
  exact alwaysEnds_pure trivial

theorem alwaysEnds_documentsFor (a : Analysis) (rules : List ProjectRule) :
    (a.documentsFor rules).AlwaysEnds AuditError.IsExternal fun _ => True := by
  unfold documentsFor
  split
  · apply (Document.alwaysEnds_load _).bind
    intro documents _
    exact alwaysEnds_pure trivial
  · exact alwaysEnds_pure trivial

/-- **A failed audit is attributed.** -/
theorem alwaysEnds_run {a : Analysis} (h : a.Standard) :
    a.run.AlwaysEnds AuditError.IsAttributed fun _ => True := by
  apply (alwaysEnds_mapM fun r hr => alwaysEnds_runFileRule a (h.onEnabledFiles r hr)).bind
  intro onFiles _
  apply ((alwaysEnds_documentsFor a _).weaken fun _ => .inl).bind
  intro documents _
  apply ((alwaysEnds_mapM fun r hr =>
    alwaysEnds_runProjectRule a documents (h.onEnabledProject r hr)).weaken fun _ => .inl).bind
  intro onProject _
  dsimp only
  split
  · apply (alwaysEnds_notify _).bind
    intro _ _
    exact alwaysEnds_pure trivial
  · exact alwaysEnds_pure trivial

/-! ### Which file a failure names -/

/-- A scanner fails in the check of a file by a rule. -/
def FailsToScan (a : Analysis) (r : Rule) (f : SourceFile) (cause : ScanError) : Prop :=
  ∃ content, f.content = .ok content ∧
    (r.check ⟨f, content, a.corpus⟩).result = .error (.scan cause)

/-- An audit comes to the check of a file by a rule: the rule is enabled and
selects the file, and nothing fails before. -/
structure ComesTo (a : Analysis) (r : Rule) (f : SourceFile) : Prop where
  rule : ∃ earlier later, a.enabledFileRules = earlier ++ r :: later ∧
    ∀ q ∈ earlier, ∃ answer, a.fileAnswer q = .ok answer
  file : ∃ earlier later, (a.corpus.files r.query).result = .ok (earlier ++ f :: later) ∧
    ∀ g ∈ earlier, ∃ found, (a.checkFile r g).result = .ok found

theorem checkFile_eq_malformedInput_iff (a : Analysis) {r : Rule} (h : r.BuiltIn) {f : SourceFile}
    (hf : r.query.meetsEndings f.path.fileName = true) {path : String} {cause : ScanError} :
    (a.checkFile r f).result = .error (.malformedInput path cause) ↔
      f.path.text = path ∧ a.FailsToScan r f cause := by
  unfold checkFile FailsToScan
  cases f.content with
  | error e =>
    constructor
    · intro hio
      cases hio
    · rintro ⟨-, content, hcontent, -⟩
      cases hcontent
  | ok content =>
    show (Audit.inFile f.path (r.check ⟨f, content, a.corpus⟩)).result = _ ↔ _
    rw [inFile_eq_malformedInput_iff (h.alwaysEnds (v := ⟨f, content, a.corpus⟩) hf)]
    simp

/-- Files are checked one after the other, and what is found is saved in this
order. -/
theorem result_checkFiles (a : Analysis) {r : Rule} (h : r.BuiltIn) (files : List SourceFile)
    (s : Session) :
    (a.checkFiles r files s).result =
      (files.mapM fun f => (a.checkFile r f).result).map fun found =>
        (files.zip found).foldl (fun s x => ((s.select x.1).extend x.2).save) s := by
  induction files generalizing s with
  | nil => rfl
  | cons f files ih =>
    have hgives := (steady_checkFile a h f).gives_bind fun found =>
      steady_checkFiles a h files ((s.select f).extend found).save
    unfold checkFiles
    rw [hgives.result_eq, List.mapM_cons]
    cases (a.checkFile r f).result with
    | error e => rfl
    | ok found =>
      show (a.checkFiles r files ((s.select f).extend found).save).result = _
      rw [ih]
      cases files.mapM fun g => (a.checkFile r g).result <;> rfl

theorem checkFiles_eq_error_iff (a : Analysis) {r : Rule} (h : r.BuiltIn)
    {files : List SourceFile} {s : Session} {e : AuditError} :
    (a.checkFiles r files s).result = .error e ↔ ∃ earlier f later,
      files = earlier ++ f :: later ∧
        (∀ g ∈ earlier, ∃ found, (a.checkFile r g).result = .ok found) ∧
          (a.checkFile r f).result = .error e := by
  -- saving what was found does not fail
  rw [result_checkFiles a h, ← mapM_eq_error_iff]
  cases files.mapM fun f => (a.checkFile r f).result with
  | error e' =>
    constructor
    · exact fun hsaved => congrArg _ (Except.error.inj hsaved)
    · exact fun hfound => congrArg _ (Except.error.inj hfound)
  | ok found =>
    constructor
    · intro hsaved
      cases hsaved
    · intro hfound
      cases hfound

theorem fileAnswer_eq_malformedInput_iff (a : Analysis) {r : Rule} (h : r.BuiltIn) {path : String}
    {cause : ScanError} :
    a.fileAnswer r = .error (.malformedInput path cause) ↔ ∃ earlier f later,
      (a.corpus.files r.query).result = .ok (earlier ++ f :: later) ∧
        (∀ g ∈ earlier, ∃ found, (a.checkFile r g).result = .ok found) ∧
          f.path.text = path ∧ a.FailsToScan r f cause := by
  rw [fileAnswer, (gives_runFileRule a h).result_eq, bind_eq_error_iff]
  constructor
  · rintro (hfiles | ⟨files, hfiles, hchecked⟩)
    · have hends := a.corpus.alwaysEnds_files r.query []
      rw [Audit.result] at hfiles
      rw [hfiles] at hends
      exact hends.elim
    · rcases bind_eq_error_iff.1 hchecked with hchecked | ⟨s, -, hsaved⟩
      · obtain ⟨earlier, f, later, rfl, hearlier, hf⟩ := (checkFiles_eq_error_iff a h).1 hchecked
        have hmeets := Corpus.meetsEndings_of_mem_files hfiles f (by simp)
        exact ⟨earlier, f, later, hfiles, hearlier,
          (checkFile_eq_malformedInput_iff a h hmeets).1 hf⟩
      · cases hsaved
  · rintro ⟨earlier, f, later, hfiles, hearlier, hf⟩
    have hmeets := Corpus.meetsEndings_of_mem_files hfiles f (by simp)
    refine .inr ⟨_, hfiles, bind_eq_error_iff.2 (.inl ?_)⟩
    exact (checkFiles_eq_error_iff a h).2
      ⟨earlier, f, later, rfl, hearlier, (checkFile_eq_malformedInput_iff a h hmeets).2 hf⟩

/-- **An audit fails with a path and a scanner's failure** exactly if it comes to
the check of that file and the scanner fails there. -/
theorem run_eq_malformedInput_iff {a : Analysis} (h : a.Standard) {notices : List Notice}
    {path : String} {cause : ScanError} :
    (a.run notices).1 = .error (.malformedInput path cause) ↔
      ∃ r f, a.ComesTo r f ∧ f.path.text = path ∧ a.FailsToScan r f cause := by
  rw [gives_run h notices, bind_eq_error_iff, mapM_eq_error_iff]
  constructor
  · rintro (⟨earlier, r, later, hrules, hearlier, hr⟩ | ⟨onFiles, -, hrest⟩)
    · have hbuiltIn := h.onEnabledFiles r (by simp [hrules])
      obtain ⟨before, f, behind, hfiles, hbefore, hf⟩ :=
        (fileAnswer_eq_malformedInput_iff a hbuiltIn).1 hr
      exact ⟨r, f, ⟨⟨earlier, later, hrules, hearlier⟩, ⟨before, behind, hfiles, hbefore⟩⟩, hf⟩
    · -- no scanner fails for the documents or in a rule on the project
      have hends : ∀ finish : List RuleReport → AuditResult,
          Ends AuditError.IsExternal (fun _ => True)
            ((a.documentsFor a.enabledProjectRules).result >>= fun documents =>
              (a.enabledProjectRules.mapM fun r => (a.runProjectRule documents r).result) >>=
                fun onProject => .ok (finish onProject)) := by
        intro finish
        apply Ends.bind (alwaysEnds_documentsFor a a.enabledProjectRules [])
        intro documents _
        apply (ends_mapM fun r hr =>
          alwaysEnds_runProjectRule a documents (h.onEnabledProject r hr) []).bind
        intro onProject _
        exact True.intro
      have hfails := hends fun onProject =>
        ⟨onFiles.map (·.1) ++ onProject, countPaths (onFiles.flatMap (·.2))⟩
      rw [hrest] at hfails
      exact hfails.elim
  · rintro ⟨r, f, ⟨⟨earlier, later, hrules, hearlier⟩, ⟨before, behind, hfiles, hbefore⟩⟩, hf⟩
    have hbuiltIn := h.onEnabledFiles r (by simp [hrules])
    refine .inl ⟨earlier, r, later, hrules, hearlier, ?_⟩
    exact (fileAnswer_eq_malformedInput_iff a hbuiltIn).2 ⟨before, f, behind, hfiles, hbefore, hf⟩

/-! ### Main result -/

/-- The audit of a corpus with the rules of a preset. -/
def ofPreset (corpus : Corpus) (settings : Settings) (p : Preset) (year : Int)
    (options : ReportOptions) : Analysis where
  corpus := corpus
  settings := settings
  fileRules := p.fileRules settings
  projectRules := p.projectRules settings year
  options := options

theorem standard_ofPreset (corpus : Corpus) (settings : Settings) (p : Preset) (year : Int)
    (options : ReportOptions) : (ofPreset corpus settings p year options).Standard :=
  ⟨p.builtIn_fileRules settings, p.builtIn_projectRules settings year⟩

/-- **An audit attributes its failures.**  It never fails with a bare failure of a
scanner or with a bad call.  It fails with a path and a failure of a scanner
exactly if it comes to the check of that file by a rule that selects it, and the
scanner fails there.  No check builds a violation without a text, and none that
is reported lacks one.  The end of a scope is asked for only where one opens, in
scripts and in templates. -/
theorem run_attributes (corpus : Corpus) (settings : Settings) (p : Preset) (year : Int)
    (options : ReportOptions) :
    let a := ofPreset corpus settings p year options
    (∀ notices,
      (∀ cause, (a.run notices).1 ≠ .error (.scan cause)) ∧
      (∀ fault, (a.run notices).1 ≠ .error (.invalidArgument fault)) ∧
      (∀ path cause, (a.run notices).1 = .error (.malformedInput path cause) ↔
        ∃ r f, a.ComesTo r f ∧ f.path.text = path ∧ a.FailsToScan r f cause) ∧
      ∀ result, (a.run notices).1 = .ok result →
        ∀ report ∈ result.reports, report.session.HasTexts) ∧
    (∀ r ∈ a.fileRules, ∀ files, (corpus.files r.query).result = .ok files →
      ∀ f ∈ files, ∀ content, f.content = .ok content →
        (r.check ⟨f, content, corpus⟩).AlwaysEnds AuditError.IsOfCheck HaveTexts) ∧
    (∀ r ∈ a.projectRules, ∀ documents,
      (r.check ⟨corpus, settings, documents⟩ (a.session r.description)).AlwaysEnds
        AuditError.IsExternal Session.HasTexts) ∧
    (∀ text c, Script.AsksScope text c →
      Script.Opens c ∧ ∀ fault, Script.closeScope c ≠ .error (.invalidArgument fault)) ∧
    ∀ text ignored name l,
      StateTransition.Reaches Markup.Lexer.step (Markup.Lexer.new text ignored) l ∨
        StateTransition.Reaches Markup.Lexer.step
          ((Markup.Lexer.new text ignored).enterTag name) l →
      l.AtScope := by
  intro a
  have hstandard : a.Standard := standard_ofPreset corpus settings p year options
  refine ⟨?_, ?_, ?_, ?_, ?_⟩
  · intro notices
    have hrun := alwaysEnds_run hstandard notices
    refine ⟨?_, ?_, fun _ _ => run_eq_malformedInput_iff hstandard,
      fun _ _ report _ => report.session.hasTexts⟩
    · intro cause hfails
      rw [hfails] at hrun
      exact AuditError.not_isAttributed id (fun _ _ => AuditError.noConfusion) hrun
    · intro fault hfails
      rw [hfails] at hrun
      exact AuditError.not_isAttributed id (fun _ _ => AuditError.noConfusion) hrun
  · intro r hr files hfiles f hf content _
    exact (hstandard.onFiles r hr).alwaysEnds (Corpus.meetsEndings_of_mem_files hfiles f hf)
  · intro r hr documents
    exact (hstandard.onProject r hr).alwaysEnds _
  · intro text c hasks
    have hopens := Script.opens_of_asksScope hasks
    exact ⟨hopens, fun fault hrefused => Script.closeScope_refuses_iff.1 ⟨fault, hrefused⟩ hopens⟩
  · rintro text ignored name l (hl | hl)
    · have hnew : (Markup.Lexer.new text ignored).state ≠ .expression := by
        simp [Markup.Lexer.new]
      exact Markup.Lexer.atScope_of_reaches (Markup.Lexer.atScope_of_state_ne hnew) hl
    · have hentered := (Markup.Lexer.new text ignored).enterTag_state_ne name
      exact Markup.Lexer.atScope_of_reaches (Markup.Lexer.atScope_of_state_ne hentered) hl

/-- A project with one template, whose tag is not closed. -/
def unclosedProject : Corpus where
  disk := ⟨.directory [("cartridges", .directory [("x.isml", .file (.ok "<a".toUTF8))])], ⟨"/"⟩⟩
  root := ⟨"/"⟩
  excludeChanges := false
  exclude := []
  cartridges := ⟨[]⟩

/-- With the tag that is not closed, an audit fails with the path of the template,
and it has come to a rule that cannot scan it. -/
theorem run_attributes_unclosed :
    let a := ofPreset unclosedProject .standard .recommended 2025 .standard
    (a.run []).1.map (fun _ => ()) =
        .error (.malformedInput "/cartridges/x.isml" (.unterminatedTag 1)) ∧
      ∃ r f, a.ComesTo r f ∧ f.path.text = "/cartridges/x.isml" ∧
        a.FailsToScan r f (.unterminatedTag 1) := by
  intro a
  have hrun : (a.run []).1.map (fun _ => ()) =
      .error (.malformedInput "/cartridges/x.isml" (.unterminatedTag 1)) := by decide +kernel
  refine ⟨hrun, ?_⟩
  cases hanswer : (a.run []).1 with
  | ok result =>
    rw [hanswer] at hrun
    cases hrun
  | error e =>
    rw [hanswer] at hrun
    obtain rfl := Except.error.inj hrun
    have hattributed := run_attributes unclosedProject .standard .recommended 2025 .standard
    exact ((hattributed.1 []).2.2.1 _ _).1 hanswer

end Analysis

end CartridgeAudit
