/-
CartridgeAudit/Proofs/Rule/Independence.lean

Rules do not influence each other.

An audit runs its rules one after the other over the same corpus.  What they
could share are the notices, the documents, which are loaded if one rule asks
for them, and the failure that ends the audit.  The answer of a rule is defined
without other rules (`fileAnswer`, `projectAnswer`), and an audit succeeds with
the answers of its enabled rules (`run_eq_ok_iff`).  The answer of a rule alone
is a special case, which gives the main result, `run_independent`.
-/
import CartridgeAudit.Analysis
import CartridgeAudit.Proofs.Rule.BuiltIn
import Mathlib.Data.Set.Card

namespace CartridgeAudit.Analysis

open Audit

/-- An audit with rules of the auditor only. -/
structure Standard (a : Analysis) : Prop where
  onFiles : ∀ r ∈ a.fileRules, r.BuiltIn
  onProject : ∀ r ∈ a.projectRules, r.BuiltIn

/-- The audit with one of its rules on files, and no other rule. -/
def alone (a : Analysis) (r : Rule) : Analysis := { a with fileRules := [r], projectRules := [] }

/-- The audit with one of its rules on the project, and no other rule. -/
def aloneOnProject (a : Analysis) (r : ProjectRule) : Analysis :=
  { a with fileRules := [], projectRules := [r] }

/-! ### The answer of one rule -/

/-- What a rule on files gives. -/
def fileAnswer (a : Analysis) (r : Rule) : Except AuditError (RuleReport × List Path) :=
  (a.runFileRule r).result

/-- What a rule on the project gives, with documents if it asks for them. -/
def projectAnswer (a : Analysis) (r : ProjectRule) : Except AuditError RuleReport :=
  (a.documentsFor [r]).result >>= fun documents => (a.runProjectRule documents r).result

theorem inFile_answer {α : Type} (path : Path) (x : Audit α) (notices : List Notice) :
    (Audit.inFile path x notices).1 = (x notices).1.mapError (·.inFile path.text) := by
  unfold Audit.inFile
  rcases x notices with ⟨_ | _, rest⟩ <;> rfl

theorem steady_inFile {α : Type} (path : Path) {x : Audit α} (hx : x.Steady) :
    (Audit.inFile path x).Steady := by
  have hgives : (Audit.inFile path x).Gives (x.result.mapError (·.inFile path.text)) := by
    intro notices
    rw [inFile_answer, hx notices]
  exact hgives.steady

theorem steady_checkFile (a : Analysis) {r : Rule} (h : r.BuiltIn) (f : SourceFile) :
    (a.checkFile r f).Steady := by
  unfold checkFile
  split
  · exact steady_throw _
  · exact steady_inFile _ (h.steady _)

theorem steady_checkFiles (a : Analysis) {r : Rule} (h : r.BuiltIn) (files : List SourceFile)
    (s : Session) : (a.checkFiles r files s).Steady := by
  induction files generalizing s with
  | nil => exact steady_pure s
  | cons f files ih =>
    unfold checkFiles
    apply (steady_checkFile a h f).bind
    intro found
    exact ih _

/-- Checking files depends on the corpus only. -/
theorem checkFiles_eq_of_corpus_eq {a b : Analysis} (h : a.corpus = b.corpus) (r : Rule)
    (files : List SourceFile) (s : Session) : a.checkFiles r files s = b.checkFiles r files s := by
  induction files generalizing s with
  | nil => rfl
  | cons f files ih =>
    have hfile : a.checkFile r f = b.checkFile r f := by
      unfold checkFile
      rw [h]
    unfold checkFiles
    rw [hfile]
    congr 1
    funext found
    exact ih _

theorem gives_runFileRule (a : Analysis) {r : Rule} (h : r.BuiltIn) :
    (a.runFileRule r).Gives ((a.corpus.files r.query).result >>= fun files =>
      (a.checkFiles r files (a.session r.description)).result >>= fun s =>
        .ok (⟨r.code, r.name, a.severityOf r.name r.severity, s⟩, files.map (·.path))) := by
  apply Gives.bind (a.corpus.steady_files r.query)
  intro files _
  apply Gives.bind (steady_checkFiles a h files _)
  intro s _
  exact gives_pure _

theorem steady_runFileRule (a : Analysis) {r : Rule} (h : r.BuiltIn) :
    (a.runFileRule r).Steady :=
  (gives_runFileRule a h).steady

theorem steady_runProjectRule (a : Analysis) (documents : Option (List Document))
    {r : ProjectRule} (h : r.BuiltIn) : (a.runProjectRule documents r).Steady := by
  apply (h.steady _ _).bind
  intro s
  exact steady_pure _

theorem steady_documentsFor (a : Analysis) (rules : List ProjectRule) :
    (a.documentsFor rules).Steady := by
  unfold documentsFor
  split
  · exact (Document.steady_load _).bind fun _ => steady_pure _
  · exact steady_pure _

/-! ### Documents -/

theorem result_documentsFor (a : Analysis) (rules : List ProjectRule) :
    (a.documentsFor rules).result =
      if rules.any (·.needsDocuments) then
        (Document.load a.corpus).result >>= fun ds => .ok (some ds)
      else .ok none := by
  unfold documentsFor
  split
  · exact ((Document.steady_load a.corpus).gives_bind fun _ => steady_pure _).result_eq
  · exact (gives_pure none).result_eq

theorem runProjectRule_documents (a : Analysis) {r : ProjectRule} (h : r.BuiltIn)
    (hneeds : r.needsDocuments = false) (documents : Option (List Document)) :
    a.runProjectRule documents r = a.runProjectRule none r := by
  rw [runProjectRule, runProjectRule, h.check_documents hneeds]

theorem projectAnswer_of_needs (a : Analysis) {r : ProjectRule} (h : r.needsDocuments = true) :
    a.projectAnswer r = (Document.load a.corpus).result >>= fun documents =>
      (a.runProjectRule (some documents) r).result := by
  rw [projectAnswer, result_documentsFor, List.any_cons, h, Bool.true_or, if_pos rfl]
  cases (Document.load a.corpus).result <;> rfl

theorem projectAnswer_of_not_needs (a : Analysis) {r : ProjectRule}
    (h : r.needsDocuments = false) : a.projectAnswer r = (a.runProjectRule none r).result := by
  rw [projectAnswer, result_documentsFor, List.any_cons, h, List.any_nil, Bool.false_or,
    if_neg Bool.false_ne_true]
  rfl

section

variable {a : Analysis} {rules : List ProjectRule}

/-- Once the documents are loaded, each rule answers as it does alone: if it does not ask
for them, it does not see them. -/
theorem mapM_runProjectRule_of_load (h : ∀ r ∈ rules, r.BuiltIn) {documents : List Document}
    (hload : (Document.load a.corpus).result = .ok documents) :
    rules.mapM (fun r => (a.runProjectRule (some documents) r).result) =
      rules.mapM a.projectAnswer := by
  apply mapM_congr
  intro r hr
  cases hneeds : r.needsDocuments with
  | true =>
    rw [a.projectAnswer_of_needs hneeds, hload]
    rfl
  | false =>
    rw [a.projectAnswer_of_not_needs hneeds, a.runProjectRule_documents (h r hr) hneeds]

theorem mapM_runProjectRule_of_not_needs (h : ∀ r ∈ rules, r.needsDocuments = false) :
    rules.mapM (fun r => (a.runProjectRule none r).result) = rules.mapM a.projectAnswer :=
  mapM_congr fun r hr => (a.projectAnswer_of_not_needs (h r hr)).symm

/-- Loading the documents once for all rules, if one asks for them, comes to the
same as loading them for each rule that asks. -/
theorem mapM_projectAnswer_eq_ok_iff (h : ∀ r ∈ rules, r.BuiltIn) {reports : List RuleReport} :
    ((a.documentsFor rules).result >>= fun documents =>
      rules.mapM fun r => (a.runProjectRule documents r).result) = .ok reports ↔
      rules.mapM a.projectAnswer = .ok reports := by
  rw [result_documentsFor]
  split
  · next hany =>
    obtain ⟨asking, hmem, hasks⟩ := List.any_eq_true.1 hany
    cases hload : (Document.load a.corpus).result with
    | error e =>
      constructor
      · intro hok
        cases hok
      · -- the rule that asks for documents fails alone, too
        intro hok
        obtain ⟨report, -, hreport⟩ := exists_of_mem_of_mapM_eq_ok hok hmem
        rw [a.projectAnswer_of_needs hasks, hload] at hreport
        cases hreport
    | ok documents =>
      rw [← mapM_runProjectRule_of_load h hload]
      rfl
  · next hany =>
    have hneeds : ∀ r ∈ rules, r.needsDocuments = false := fun r hr =>
      Bool.eq_false_iff.2 fun hasks => hany (List.any_eq_true.2 ⟨r, hr, hasks⟩)
    rw [← mapM_runProjectRule_of_not_needs hneeds]
    rfl

end

/-! ### The answers of all rules -/

theorem Standard.onEnabledFiles {a : Analysis} (h : a.Standard) :
    ∀ r ∈ a.enabledFileRules, r.BuiltIn :=
  fun r hr => h.onFiles r (List.mem_of_mem_filter hr)

theorem Standard.onEnabledProject {a : Analysis} (h : a.Standard) :
    ∀ r ∈ a.enabledProjectRules, r.BuiltIn :=
  fun r hr => h.onProject r (List.mem_of_mem_filter hr)

/-- An audit runs the rules on files, then loads the documents if a rule on the
project asks for them, and then runs those rules. -/
theorem gives_run {a : Analysis} (h : a.Standard) :
    a.run.Gives (a.enabledFileRules.mapM a.fileAnswer >>= fun onFiles =>
      (a.documentsFor a.enabledProjectRules).result >>= fun documents =>
        (a.enabledProjectRules.mapM fun r => (a.runProjectRule documents r).result) >>=
          fun onProject =>
            .ok ⟨onFiles.map (·.1) ++ onProject, countPaths (onFiles.flatMap (·.2))⟩) := by
  apply (Steady.gives_mapM fun r hr => steady_runFileRule a (h.onEnabledFiles r hr)).bind
  intro onFiles _
  apply Gives.bind (steady_documentsFor a _)
  intro documents _
  apply (Steady.gives_mapM fun r hr =>
    steady_runProjectRule a documents (h.onEnabledProject r hr)).bind
  intro onProject _
  -- the notice about rules with findings does not change the answer
  dsimp only
  split
  · exact (gives_notify _).bind_ok (gives_pure _)
  · exact gives_pure _

/-- **An audit succeeds with the answers of its enabled rules.** -/
theorem run_eq_ok_iff {a : Analysis} (h : a.Standard) {notices : List Notice}
    {result : AuditResult} :
    (a.run notices).1 = .ok result ↔
      ∃ onFiles onProject, a.enabledFileRules.mapM a.fileAnswer = .ok onFiles ∧
        a.enabledProjectRules.mapM a.projectAnswer = .ok onProject ∧
        result = ⟨onFiles.map (·.1) ++ onProject, countPaths (onFiles.flatMap (·.2))⟩ := by
  rw [gives_run h notices, bind_eq_ok_iff]
  constructor
  · rintro ⟨onFiles, hfiles, hrest⟩
    rw [← bind_assoc, bind_eq_ok_iff] at hrest
    obtain ⟨onProject, hproject, hresult⟩ := hrest
    refine ⟨onFiles, onProject, hfiles, ?_, (Except.ok.inj hresult).symm⟩
    exact (mapM_projectAnswer_eq_ok_iff h.onEnabledProject).1 hproject
  · rintro ⟨onFiles, onProject, hfiles, hproject, rfl⟩
    refine ⟨onFiles, hfiles, ?_⟩
    rw [← bind_assoc, bind_eq_ok_iff]
    exact ⟨onProject, (mapM_projectAnswer_eq_ok_iff h.onEnabledProject).2 hproject, rfl⟩

/-- A rule on files alone succeeds with its answer. -/
theorem run_alone_eq_ok_iff {a : Analysis} {r : Rule} (h : r.BuiltIn)
    (henabled : a.settings.isEnabled r.name = true) {notices : List Notice}
    {result : AuditResult} :
    ((a.alone r).run notices).1 = .ok result ↔
      ∃ answer, a.fileAnswer r = .ok answer ∧ result = ⟨[answer.1], countPaths answer.2⟩ := by
  have hstandard : (a.alone r).Standard := ⟨by simpa [alone] using h, by simp [alone]⟩
  have hfiles : (a.alone r).enabledFileRules = [r] := by
    simp [enabledFileRules, alone, henabled]
  have hproject : (a.alone r).enabledProjectRules = [] := by
    simp [enabledProjectRules, alone]
  have hanswer : (a.alone r).fileAnswer r = a.fileAnswer r := by
    simp only [fileAnswer, runFileRule, checkFiles_eq_of_corpus_eq (a := a.alone r) (b := a) rfl]
    rfl
  rw [run_eq_ok_iff hstandard, hfiles, hproject]
  simp only [mapM_eq_ok_iff, List.forall₂_cons_left_iff, List.forall₂_nil_left_iff, hanswer]
  constructor
  · rintro ⟨_, _, ⟨answer, _, hok, rfl, rfl⟩, rfl, rfl⟩
    exact ⟨answer, hok, by simp⟩
  · rintro ⟨answer, hok, rfl⟩
    exact ⟨[answer], [], ⟨answer, [], hok, rfl, rfl⟩, rfl, by simp⟩

/-- A rule on the project alone succeeds with its answer. -/
theorem run_aloneOnProject_eq_ok_iff {a : Analysis} {r : ProjectRule} (h : r.BuiltIn)
    (henabled : a.settings.isEnabled r.name = true) {notices : List Notice}
    {result : AuditResult} :
    ((a.aloneOnProject r).run notices).1 = .ok result ↔
      ∃ report, a.projectAnswer r = .ok report ∧ result = ⟨[report], 0⟩ := by
  have hstandard : (a.aloneOnProject r).Standard :=
    ⟨by simp [aloneOnProject], by simpa [aloneOnProject] using h⟩
  have hfiles : (a.aloneOnProject r).enabledFileRules = [] := by
    simp [enabledFileRules, aloneOnProject]
  have hproject : (a.aloneOnProject r).enabledProjectRules = [r] := by
    simp [enabledProjectRules, aloneOnProject, henabled]
  have hanswer : (a.aloneOnProject r).projectAnswer r = a.projectAnswer r := rfl
  rw [run_eq_ok_iff hstandard, hfiles, hproject]
  simp only [mapM_eq_ok_iff, List.forall₂_cons_left_iff, List.forall₂_nil_left_iff, hanswer]
  constructor
  · rintro ⟨_, _, rfl, ⟨report, _, hok, rfl, rfl⟩, rfl⟩
    exact ⟨report, hok, rfl⟩
  · rintro ⟨report, hok, rfl⟩
    exact ⟨[], [report], rfl, ⟨report, [], hok, rfl, rfl⟩, rfl⟩

/-! ### Files that are looked at -/

/-- The components of the paths that the enabled rules on files select. -/
def selectedPaths (a : Analysis) : Set (List Component) :=
  { cs | ∃ r ∈ a.enabledFileRules, ∃ files, (a.corpus.files r.query).result = .ok files ∧
    ∃ f ∈ files, f.path.components = cs }

theorem nodup_eraseDups {α : Type} [BEq α] [LawfulBEq α] (xs : List α) : xs.eraseDups.Nodup := by
  -- the recursion goes on with what is left of the list, so the length is what decreases
  induction hn : xs.length using Nat.strong_induction_on generalizing xs with
  | _ n ih =>
    cases xs with
    | nil => simp
    | cons x xs =>
      have hshorter : (xs.filter fun y => !y == x).length < n := by
        rw [← hn, List.length_cons]
        exact Nat.lt_succ_of_le (List.length_filter_le _ _)
      rw [List.eraseDups_cons, List.nodup_cons]
      refine ⟨?_, ih _ hshorter _ rfl⟩
      rw [List.mem_eraseDups]
      simp

theorem countPaths_eq_ncard (paths : List Path) :
    countPaths paths = { cs | ∃ p ∈ paths, p.components = cs }.ncard := by
  have hset : { cs | ∃ p ∈ paths, p.components = cs } =
      ((paths.map (·.components)).eraseDups.toFinset : Set (List Component)) := by
    ext cs
    simp
  rw [hset, Set.ncard_coe_finset, List.toFinset_card_of_nodup (nodup_eraseDups _)]
  rfl

theorem fileAnswer_eq_ok {a : Analysis} {r : Rule} (h : r.BuiltIn)
    {answer : RuleReport × List Path} (hok : a.fileAnswer r = .ok answer) :
    ∃ files, (a.corpus.files r.query).result = .ok files ∧ answer.2 = files.map (·.path) := by
  rw [fileAnswer, (gives_runFileRule a h).result_eq, bind_eq_ok_iff] at hok
  obtain ⟨files, hfiles, hrest⟩ := hok
  obtain ⟨s, -, hanswer⟩ := bind_eq_ok_iff.1 hrest
  exact ⟨files, hfiles, by rw [← Except.ok.inj hanswer]⟩

theorem countPaths_eq_ncard_selectedPaths {a : Analysis} (h : a.Standard)
    {onFiles : List (RuleReport × List Path)}
    (hok : a.enabledFileRules.mapM a.fileAnswer = .ok onFiles) :
    countPaths (onFiles.flatMap (·.2)) = a.selectedPaths.ncard := by
  rw [countPaths_eq_ncard]
  congr 1
  ext cs
  simp only [selectedPaths, Set.mem_ofPred_eq, List.mem_flatMap]
  constructor
  · rintro ⟨p, ⟨answer, hanswer, hp⟩, rfl⟩
    obtain ⟨r, hr, hrok⟩ := (mem_iff_of_mapM_eq_ok hok).1 hanswer
    obtain ⟨files, hfiles, hpaths⟩ := fileAnswer_eq_ok (h.onEnabledFiles r hr) hrok
    obtain ⟨f, hf, rfl⟩ := List.mem_map.1 (hpaths ▸ hp)
    exact ⟨r, hr, files, hfiles, f, hf, rfl⟩
  · rintro ⟨r, hr, files, hfiles, f, hf, rfl⟩
    obtain ⟨answer, hanswer, hrok⟩ := exists_of_mem_of_mapM_eq_ok hok hr
    obtain ⟨selected, hselected, hpaths⟩ := fileAnswer_eq_ok (h.onEnabledFiles r hr) hrok
    obtain rfl := Except.ok.inj (hfiles.symm.trans hselected)
    exact ⟨f.path, ⟨answer, hanswer, hpaths ▸ List.mem_map_of_mem hf⟩, rfl⟩

/-! ### Main result -/

/-- **Rules do not influence each other.**  An audit succeeds if every enabled
rule alone does; its reports are those of the rules alone, first the rules on
files and then the rules on the project, and it counts the different paths that
the enabled rules on files select. -/
theorem run_independent {a : Analysis} (h : a.Standard) (notices : List Notice) :
    ((∃ result, (a.run notices).1 = .ok result) ↔
      (∀ r ∈ a.enabledFileRules, ∃ result, ((a.alone r).run notices).1 = .ok result) ∧
      ∀ r ∈ a.enabledProjectRules, ∃ result, ((a.aloneOnProject r).run notices).1 = .ok result) ∧
    ∀ result, (a.run notices).1 = .ok result →
      ∃ onFiles onProject, result.reports = onFiles ++ onProject ∧
        List.Forall₂ (fun r report => ∃ n, ((a.alone r).run notices).1 = .ok ⟨[report], n⟩)
          a.enabledFileRules onFiles ∧
        List.Forall₂ (fun r report =>
            ((a.aloneOnProject r).run notices).1 = .ok ⟨[report], 0⟩)
          a.enabledProjectRules onProject ∧
        result.filesChecked = a.selectedPaths.ncard := by
  have hfile : ∀ r ∈ a.enabledFileRules, ∀ result,
      ((a.alone r).run notices).1 = .ok result ↔
        ∃ answer, a.fileAnswer r = .ok answer ∧ result = ⟨[answer.1], countPaths answer.2⟩ := by
    intro r hr result
    exact run_alone_eq_ok_iff (h.onEnabledFiles r hr) (List.mem_filter.1 hr).2
  have hproject : ∀ r ∈ a.enabledProjectRules, ∀ result,
      ((a.aloneOnProject r).run notices).1 = .ok result ↔
        ∃ report, a.projectAnswer r = .ok report ∧ result = ⟨[report], 0⟩ := by
    intro r hr result
    exact run_aloneOnProject_eq_ok_iff (h.onEnabledProject r hr) (List.mem_filter.1 hr).2
  constructor
  · constructor
    · rintro ⟨result, hresult⟩
      obtain ⟨onFiles, onProject, hfiles, hprojects, -⟩ := (run_eq_ok_iff h).1 hresult
      constructor
      · intro r hr
        obtain ⟨answer, -, hanswer⟩ := exists_of_mem_of_mapM_eq_ok hfiles hr
        exact ⟨_, (hfile r hr _).2 ⟨answer, hanswer, rfl⟩⟩
      · intro r hr
        obtain ⟨report, -, hreport⟩ := exists_of_mem_of_mapM_eq_ok hprojects hr
        exact ⟨_, (hproject r hr _).2 ⟨report, hreport, rfl⟩⟩
    · rintro ⟨hfiles, hprojects⟩
      obtain ⟨onFiles, honFiles⟩ := exists_mapM_eq_ok fun r hr => by
        obtain ⟨result, hresult⟩ := hfiles r hr
        obtain ⟨answer, hanswer, -⟩ := (hfile r hr result).1 hresult
        exact ⟨answer, hanswer⟩
      obtain ⟨onProject, honProject⟩ := exists_mapM_eq_ok fun r hr => by
        obtain ⟨result, hresult⟩ := hprojects r hr
        obtain ⟨report, hreport, -⟩ := (hproject r hr result).1 hresult
        exact ⟨report, hreport⟩
      exact ⟨_, (run_eq_ok_iff h).2 ⟨onFiles, onProject, honFiles, honProject, rfl⟩⟩
  · intro result hresult
    obtain ⟨onFiles, onProject, hfiles, hprojects, rfl⟩ := (run_eq_ok_iff h).1 hresult
    refine ⟨onFiles.map (·.1), onProject, rfl, ?_, ?_, countPaths_eq_ncard_selectedPaths h hfiles⟩
    · rw [List.forall₂_map_right_iff]
      apply forall₂_of_mapM_eq_ok hfiles
      intro r hr answer hanswer
      exact ⟨_, (hfile r hr _).2 ⟨answer, hanswer, rfl⟩⟩
    · apply forall₂_of_mapM_eq_ok hprojects
      intro r hr report hreport
      exact (hproject r hr _).2 ⟨report, hreport, rfl⟩

/-- An audit of a script with a note, with one rule twice and a version of another
year. -/
def notedAudit : Analysis where
  corpus :=
    ⟨⟨.directory [("cartridges", .directory [("app", .directory
      [("a.js", .file (.ok "run(); // TODO".toUTF8))])])], ⟨"/"⟩⟩, ⟨"/"⟩, true, [], ⟨[]⟩⟩
  settings := { Settings.standard with
    project := { Settings.standardProject with cartridgeVersion := some "26.1.0" } }
  fileRules := [Rule.importPaths, Rule.noTodo, Rule.importPaths]
  projectRules := [ProjectRule.versionFormat 2025]
  options := .standard

theorem standard_notedAudit : notedAudit.Standard := by
  constructor
  · simp only [notedAudit, List.forall_mem_cons, List.not_mem_nil, false_implies, implies_true,
      and_true]
    exact ⟨.importPaths, .noTodo, .importPaths⟩
  · simp only [notedAudit, List.forall_mem_cons, List.not_mem_nil, false_implies, implies_true,
      and_true]
    exact .versionFormat 2025

/-- The note and the version are reported, each as by its rule alone. -/
theorem run_independent_noted :
    notedAudit.Standard ∧ ∃ result imports noted again version,
      (notedAudit.run []).1 = .ok result ∧ result.reports = [imports, noted, again, version] ∧
      result.reports.map (·.passed) = [true, false, true, false] ∧
      (∃ n, ((notedAudit.alone Rule.noTodo).run []).1 = .ok ⟨[noted], n⟩) ∧
      ((notedAudit.aloneOnProject (ProjectRule.versionFormat 2025)).run []).1 =
        .ok ⟨[version], 0⟩ := by
  have hpassed : (notedAudit.run []).1.map (·.reports.map (·.passed)) =
      .ok [true, false, true, false] := by decide +kernel
  have hfiles : notedAudit.enabledFileRules =
      [Rule.importPaths, Rule.noTodo, Rule.importPaths] := rfl
  have hprojects : notedAudit.enabledProjectRules = [ProjectRule.versionFormat 2025] := rfl
  cases hrun : (notedAudit.run []).1 with
  | error e =>
    rw [hrun] at hpassed
    cases hpassed
  | ok result =>
    rw [hrun] at hpassed
    obtain ⟨onFiles, onProject, hreports, hfile, hproject, -⟩ :=
      (run_independent standard_notedAudit []).2 result hrun
    rw [hfiles] at hfile
    rw [hprojects] at hproject
    obtain ⟨imports, _, -, hsecond, rfl⟩ := List.forall₂_cons_left_iff.1 hfile
    obtain ⟨noted, _, hnoted, hthird, rfl⟩ := List.forall₂_cons_left_iff.1 hsecond
    obtain ⟨again, _, -, hnil, rfl⟩ := List.forall₂_cons_left_iff.1 hthird
    obtain ⟨version, _, hversion, hnil', rfl⟩ := List.forall₂_cons_left_iff.1 hproject
    rw [List.forall₂_nil_left_iff.1 hnil, List.forall₂_nil_left_iff.1 hnil'] at hreports
    exact ⟨standard_notedAudit, result, imports, noted, again, version, rfl, hreports,
      Except.ok.inj hpassed, hnoted, hversion⟩

end CartridgeAudit.Analysis
