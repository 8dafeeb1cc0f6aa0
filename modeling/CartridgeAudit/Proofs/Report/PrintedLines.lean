/-
CartridgeAudit/Proofs/Report/PrintedLines.lean

Results, printed line by line.

Who reads a printed result goes by its lines, while the texts of violations come from
files and may have any blanks in them.  A text that is tidied is one line, whatever it
was; the other parts of a line are paths, codes and issues, which are one line each if
they are given so, and numbers, which always are.

Rows are resolved before anything is printed, and that is where printing can fail.  So
there are two cases all along: all files could be read and all violations have their
rows, or the error is that of a file that could not (`resolveAudits_cases`,
`Session.resolveRows_cases`, `AuditResult.resolveRows_cases`).

A report puts its audits together with two newlines and the lines of an audit with one.
By lines this is one blank line between any two audits (`ended_intercalate`).  Only a
report without audits is different: all that follows its first line is a blank one.

Main result: `printed_line_by_line`.
-/
import CartridgeAudit.CommandLine.Output
import CartridgeAudit.Proofs.Project.Steps
import CartridgeAudit.Proofs.Report.Rows
import CartridgeAudit.Proofs.Text.Tidy

namespace CartridgeAudit

/-! ### Lines -/

/-- A text without a newline. -/
def IsLine (s : String) : Prop := '\n' ∉ s.toList

instance : DecidablePred IsLine := fun s => inferInstanceAs (Decidable ('\n' ∉ s.toList))

theorem isLine_append_iff {s t : String} : IsLine (s ++ t) ↔ IsLine s ∧ IsLine t := by
  simp only [IsLine, String.toList_append, List.mem_append, not_or]

theorem IsLine.append {s t : String} (hs : IsLine s) (ht : IsLine t) : IsLine (s ++ t) :=
  isLine_append_iff.2 ⟨hs, ht⟩

theorem isLine_tidy (t : Text) : IsLine (String.ofList t.tidy) := by
  rw [IsLine, String.toList_ofList]
  exact Text.newline_not_mem_tidy t

theorem isLine_toString (n : Nat) : IsLine (toString n) := by
  intro h
  rw [Nat.toString_eq_repr, Nat.toList_repr] at h
  exact absurd (Nat.isDigit_of_mem_toDigits (by decide) (by decide) h) (by decide)

theorem isLine_name (s : Severity) : IsLine s.name := by
  cases s <;> decide

/-- Lines, each with its newline. -/
def ended (lines : List String) : String := String.join (lines.map (· ++ "\n"))

@[simp] theorem ended_nil : ended [] = "" := String.join_nil

@[simp] theorem ended_cons (line : String) (lines : List String) :
    ended (line :: lines) = line ++ "\n" ++ ended lines := String.join_cons

@[simp] theorem ended_append (lines more : List String) :
    ended (lines ++ more) = ended lines ++ ended more := by
  rw [ended, List.map_append, String.join_append]
  rfl

theorem mem_of_mem_intercalate {α : Type} {separator : List α} {x : α} {blocks : List (List α)}
    (h : x ∈ separator.intercalate blocks) :
    x ∈ separator ∨ ∃ block ∈ blocks, x ∈ block := by
  induction blocks with
  | nil => cases h
  | cons block blocks ih =>
    cases blocks with
    | nil =>
      rw [List.intercalate_singleton] at h
      exact .inr ⟨block, List.mem_cons_self, h⟩
    | cons next blocks =>
      rw [List.intercalate_cons_cons, List.append_assoc, List.mem_append, List.mem_append] at h
      rcases h with h | h | h
      · exact .inr ⟨block, List.mem_cons_self, h⟩
      · exact .inl h
      · rcases ih h with h | ⟨other, hother, h⟩
        · exact .inl h
        · exact .inr ⟨other, List.mem_cons_of_mem _ hother, h⟩

theorem intercalate_newline {lines : List String} (h : lines ≠ []) :
    "\n".intercalate lines ++ "\n" = ended lines := by
  induction lines with
  | nil => exact absurd rfl h
  | cons line lines ih =>
    cases lines with
    | nil => simp
    | cons next lines =>
      rw [String.intercalate_cons_cons, ended_cons, ← ih (List.cons_ne_nil _ _),
        String.append_assoc]

/-- With two newlines between them, blocks of lines have a blank line between them. -/
theorem ended_intercalate {blocks : List (List String)} (hne : blocks ≠ [])
    (h : ∀ block ∈ blocks, block ≠ []) :
    "\n\n".intercalate (blocks.map "\n".intercalate) ++ "\n" = ended ([""].intercalate blocks) := by
  induction blocks with
  | nil => exact absurd rfl hne
  | cons block blocks ih =>
    obtain ⟨hblock, hblocks⟩ := List.forall_mem_cons.1 h
    cases blocks with
    | nil => simp [intercalate_newline hblock]
    | cons next blocks =>
      have hnewlines : "\n\n" = "\n" ++ "\n" := by decide
      rw [List.intercalate_cons_cons, ended_append, ended_append,
        ← ih (List.cons_ne_nil _ _) hblocks, ← intercalate_newline hblock, List.map_cons,
        List.map_cons, String.intercalate_cons_cons, hnewlines]
      simp [String.append_assoc]

/-! ### Resolution of all rows -/

/-- The file of an audit can be read. -/
def FileAudit.IsReadable (a : FileAudit) : Prop := ∃ content, a.file.content = .ok content

/-- A file of the audits cannot be read for this reason. -/
def UnreadableFor (e : FileError) (audits : List FileAudit) : Prop :=
  ∃ a ∈ audits, a.file.content = .error e

/-- The second audit is the first one with all its rows. -/
def FileAudit.Resolves (a b : FileAudit) : Prop :=
  ∃ content, a.file.content = .ok content ∧ b.file = a.file ∧
    b.violations = a.violations.map fun v => v.withRow (content.newlinesBefore v.offset + 1)

theorem isReadable_of_resolves {audits resolved : List FileAudit}
    (h : List.Forall₂ FileAudit.Resolves audits resolved) : ∀ a ∈ audits, a.IsReadable := by
  refine forall_mem_of_forall₂ (R := flip FileAudit.Resolves) h.flip fun b _ a hab => ?_
  obtain ⟨content, hcontent, -⟩ := hab
  exact ⟨content, hcontent⟩

theorem UnreadableFor.not_isReadable {e : FileError} {audits : List FileAudit}
    (h : UnreadableFor e audits) : ¬ ∀ a ∈ audits, a.IsReadable := by
  intro hall
  obtain ⟨a, ha, he⟩ := h
  obtain ⟨content, hcontent⟩ := hall a ha
  rw [he] at hcontent
  cases hcontent

/-- All rows are resolved, or a file cannot be read. -/
theorem resolveAudits_cases (l : List FileAudit) :
    (∃ l', resolveAudits l = (l', none) ∧ List.Forall₂ FileAudit.Resolves l l') ∨
      ∃ e, UnreadableFor e l ∧ (resolveAudits l).2 = some e := by
  induction l with
  | nil => exact .inl ⟨[], rfl, .nil⟩
  | cons a as ih =>
    rw [resolveAudits, FileAudit.resolve]
    cases hcontent : a.file.content with
    | error e => exact .inr ⟨e, ⟨a, List.mem_cons_self, hcontent⟩, rfl⟩
    | ok content =>
      rcases ih with ⟨as', has, hresolves⟩ | ⟨e, ⟨b, hb, he⟩, has⟩
      · left
        refine ⟨a.withRows content :: as', by rw [has]; rfl,
          .cons ⟨content, hcontent, rfl, ?_⟩ hresolves⟩
        rw [FileAudit.withRows, Violation.resolveRows_eq_map]
        simp only [rowOf_newlines]
      · exact .inr ⟨e, ⟨b, List.mem_cons_of_mem a hb, he⟩, has⟩

theorem Session.resolveRows_cases (s : Session) :
    (∃ failed, s.resolveRows = ({ s with failed }, .ok ()) ∧
      List.Forall₂ FileAudit.Resolves s.failed failed) ∨
      ∃ e, UnreadableFor e s.failed ∧ s.resolveRows.2 = .error (.io e) := by
  rw [resolveRows]
  rcases resolveAudits_cases s.failed with ⟨failed, h, hresolves⟩ | ⟨e, he, h⟩
  · exact .inl ⟨failed, by rw [h], hresolves⟩
  · exact .inr ⟨e, he, by simp only [h]⟩

/-- The second report is the first one with all rows of its session. -/
def RuleReport.Resolves (rule resolved : RuleReport) : Prop :=
  ∃ failed, resolved = { rule with session := { rule.session with failed } } ∧
    List.Forall₂ FileAudit.Resolves rule.session.failed failed

/-- The failed audits of all reports. -/
def AuditResult.audits (r : AuditResult) : List FileAudit := r.reports.flatMap (·.session.failed)

theorem isReadable_of_ruleReport_resolves {r : AuditResult} {reports : List RuleReport}
    (h : List.Forall₂ RuleReport.Resolves r.reports reports) : ∀ a ∈ r.audits, a.IsReadable := by
  have hrules : ∀ rule ∈ r.reports, ∀ a ∈ rule.session.failed, a.IsReadable := by
    refine forall_mem_of_forall₂ (R := flip RuleReport.Resolves) h.flip fun _ _ rule hrule => ?_
    obtain ⟨failed, -, hfailed⟩ := hrule
    exact isReadable_of_resolves hfailed
  intro a ha
  obtain ⟨rule, hrule, ha⟩ := List.mem_flatMap.1 ha
  exact hrules rule hrule a ha

/-- A report with all its rows, if the files can be read. -/
def RuleReport.resolve (rule : RuleReport) : Except AuditError RuleReport := do
  let (session, done) := rule.session.resolveRows
  done
  return { rule with session }

theorem AuditResult.resolveRows_eq (r : AuditResult) :
    r.resolveRows = (r.reports.mapM RuleReport.resolve).map fun reports => { r with reports } := by
  have hrows : r.resolveRows =
    (r.reports.mapM RuleReport.resolve >>= fun reports => .ok { r with reports }) := rfl
  rw [hrows]
  cases r.reports.mapM RuleReport.resolve <;> rfl

theorem RuleReport.resolve_cases (rule : RuleReport) :
    (∃ resolved, rule.resolve = .ok resolved ∧ rule.Resolves resolved) ∨
      ∃ e, UnreadableFor e rule.session.failed ∧ rule.resolve = .error (.io e) := by
  rcases rule.session.resolveRows_cases with ⟨failed, h, hresolves⟩ | ⟨e, he, h⟩
  · exact .inl ⟨_, by rw [resolve, h]; rfl, failed, rfl, hresolves⟩
  · exact .inr ⟨e, he, by simp only [resolve, h]; rfl⟩

theorem AuditResult.resolveRows_cases (r : AuditResult) :
    (∃ reports, r.resolveRows = .ok { r with reports } ∧
      List.Forall₂ RuleReport.Resolves r.reports reports) ∨
      ∃ e, UnreadableFor e r.audits ∧ r.resolveRows = .error (.io e) := by
  rw [resolveRows_eq]
  cases h : r.reports.mapM RuleReport.resolve with
  | ok reports =>
    refine .inl ⟨reports, rfl, (mapM_eq_ok_iff.1 h).imp fun rule resolved hrule => ?_⟩
    rcases rule.resolve_cases with ⟨_, hok, hresolves⟩ | ⟨e, -, herror⟩
    · obtain rfl := Except.ok.inj (hok.symm.trans hrule)
      exact hresolves
    · cases herror.symm.trans hrule
  | error e =>
    obtain ⟨earlier, rule, later, hreports, -, hrule⟩ := mapM_eq_error_iff.1 h
    rcases rule.resolve_cases with ⟨_, hok, -⟩ | ⟨e', ⟨a, ha, he⟩, herror⟩
    · cases hok.symm.trans hrule
    · obtain rfl := Except.error.inj (herror.symm.trans hrule)
      have hmem : rule ∈ r.reports := hreports ▸ List.mem_append_right _ List.mem_cons_self
      exact .inr ⟨e', ⟨a, List.mem_flatMap.2 ⟨rule, hmem, ha⟩, he⟩, rfl⟩

/-! ### One line per violation -/

/-- A violation with the audit and the report that it is part of. -/
structure Listed where
  report : RuleReport
  audit : FileAudit
  violation : Violation

/-- The violations of a result, in the order of reports, audits and violations. -/
def AuditResult.listed (r : AuditResult) : List Listed :=
  r.reports.flatMap fun report => report.session.failed.flatMap fun audit =>
    audit.violations.map (Listed.mk report audit)

/-- The line of a violation, with the row that it has in the file. -/
def IsLineOf (x : Listed) (line : String) : Prop :=
  ∃ content, x.audit.file.content = .ok content ∧
    line = x.audit.file.path.text ++ s!":{content.newlinesBefore x.violation.offset + 1}: " ++
      x.report.severity.name ++ " [" ++ x.report.code ++ "] " ++
      String.ofList x.violation.text.tidy

/-- Issue and paths are one line each. -/
structure Session.IsPlain (s : Session) : Prop where
  issue : IsLine s.issue
  paths : ∀ a ∈ s.failed, IsLine a.file.path.text

/-- Codes, issues and paths are one line each. -/
structure AuditResult.IsPlain (r : AuditResult) : Prop where
  codes : ∀ rule ∈ r.reports, IsLine rule.code
  sessions : ∀ rule ∈ r.reports, rule.session.IsPlain

/-- A result is printed with one line for each violation. -/
def AuditResult.PrintsLines (r : AuditResult) : Prop :=
  ∃ lines, CommandLine.compactLines r = .ok lines ∧ (∀ line ∈ lines, IsLine line) ∧
    List.Forall₂ IsLineOf r.listed lines

namespace FileAudit

variable {a b : FileAudit}

/-- The printed lines of an audit with its rows are those of its violations. -/
theorem Resolves.isLineOf (h : a.Resolves b) (rule : RuleReport) :
    List.Forall₂ IsLineOf (a.violations.map (Listed.mk rule a))
      (b.violations.map (CommandLine.compactLine rule b)) := by
  obtain ⟨content, hcontent, hfile, hviolations⟩ := h
  rw [hviolations, List.map_map, List.forall₂_map_left_iff, List.forall₂_map_right_iff,
    List.forall₂_same]
  intro v _
  refine ⟨content, hcontent, ?_⟩
  rw [Function.comp_apply, CommandLine.compactLine, hfile]
  rfl

end FileAudit

/-- The printed lines of a result with its rows are those of its violations. -/
theorem forall₂_isLineOf {reports resolved : List RuleReport}
    (h : List.Forall₂ RuleReport.Resolves reports resolved) :
    List.Forall₂ IsLineOf
      (reports.flatMap fun rule => rule.session.failed.flatMap fun a =>
        a.violations.map (Listed.mk rule a))
      (resolved.flatMap fun rule => rule.session.failed.flatMap fun a =>
        a.violations.map (CommandLine.compactLine rule a)) := by
  refine List.rel_flatMap h fun rule rule' hrule => ?_
  obtain ⟨failed, rfl, hfailed⟩ := hrule
  exact List.rel_flatMap hfailed fun a b hab => hab.isLineOf rule

theorem AuditResult.IsPlain.isLine_of_isLineOf {r : AuditResult} (h : r.IsPlain) {x : Listed}
    (hx : x ∈ r.listed) {line : String} (hline : IsLineOf x line) : IsLine line := by
  obtain ⟨rule, hrule, hx⟩ := List.mem_flatMap.1 hx
  obtain ⟨a, ha, hx⟩ := List.mem_flatMap.1 hx
  obtain ⟨v, -, rfl⟩ := List.mem_map.1 hx
  obtain ⟨content, -, rfl⟩ := hline
  have hrow : IsLine s!":{content.newlinesBefore v.offset + 1}: " :=
    ((by decide : IsLine ":").append (isLine_toString _)).append (by decide)
  refine .append (.append (.append (.append (.append (.append ?_ hrow) (isLine_name _)) ?_)
    (h.codes rule hrule)) ?_) (isLine_tidy _)
  · exact (h.sessions rule hrule).paths a ha
  · decide
  · decide

theorem AuditResult.compactLines_cases {r : AuditResult} (h : r.IsPlain) :
    (∀ a ∈ r.audits, a.IsReadable) ∧ r.PrintsLines ∨
      ∃ e, UnreadableFor e r.audits ∧ CommandLine.compactLines r = .error (.io e) := by
  rw [PrintsLines, CommandLine.compactLines]
  rcases r.resolveRows_cases with ⟨reports, hrows, hresolves⟩ | ⟨e, he, hrows⟩
  · have hlines := forall₂_isLineOf hresolves
    rw [hrows]
    refine .inl ⟨isReadable_of_ruleReport_resolves hresolves, _, rfl, ?_, hlines⟩
    exact forall_mem_of_forall₂ hlines fun x hx line => h.isLine_of_isLineOf hx
  · rw [hrows]
    exact .inr ⟨e, he, rfl⟩

/-! ### One block of lines per audit -/

/-- The lines about an audit: one for the file, and one with its row for each violation. -/
def IsBlockOf (a : FileAudit) (block : List String) : Prop :=
  ∃ content, a.file.content = .ok content ∧
    block = ("SOURCE: " ++ a.file.path.text) :: a.violations.map fun v =>
      s!"   row {content.newlinesBefore v.offset + 1}: " ++ String.ofList v.text.tidy

/-- A session is reported with a line for the issue, and the blocks of its failed audits, with
one blank line between any two. -/
def Session.ReportsBlocks (s : Session) : Prop :=
  ∃ blocks, s.report.2 = .ok (ended ((s.issue ++ ":") :: [""].intercalate blocks)) ∧
    (∀ line ∈ (s.issue ++ ":") :: [""].intercalate blocks, IsLine line) ∧
    List.Forall₂ IsBlockOf s.failed blocks

/-- The lines that an audit is rendered in. -/
def FileAudit.block (a : FileAudit) : List String :=
  ("SOURCE: " ++ a.file.path.text) :: a.violations.map (·.message true)

theorem FileAudit.Resolves.isBlockOf {a b : FileAudit} (h : a.Resolves b) :
    IsBlockOf a b.block := by
  obtain ⟨content, hcontent, hfile, hviolations⟩ := h
  refine ⟨content, hcontent, ?_⟩
  rw [FileAudit.block, hfile, hviolations, List.map_map]
  rfl

theorem isLine_of_isBlockOf {a : FileAudit} (ha : IsLine a.file.path.text) {block : List String}
    (h : IsBlockOf a block) : ∀ line ∈ block, IsLine line := by
  obtain ⟨content, -, rfl⟩ := h
  refine List.forall_mem_cons.2 ⟨(by decide : IsLine "SOURCE: ").append ha, fun line hline => ?_⟩
  obtain ⟨v, -, rfl⟩ := List.mem_map.1 hline
  have hrow : IsLine s!"   row {content.newlinesBefore v.offset + 1}: " :=
    ((by decide : IsLine "   row ").append (isLine_toString _)).append (by decide)
  exact hrow.append (isLine_tidy _)

theorem Session.render_eq_ended {s : Session} (htidy : s.options.tidy = true)
    (hne : s.failed ≠ []) :
    s.render = ended ((s.issue ++ ":") :: [""].intercalate (s.failed.map FileAudit.block)) := by
  have hblocks : s.failed.map (·.render true) =
      (s.failed.map FileAudit.block).map "\n".intercalate := by
    rw [List.map_map]
    rfl
  have hcolon : ":\n" = ":" ++ "\n" := by decide
  rw [render, htidy, hblocks, ended_cons, ← ended_intercalate (mt List.map_eq_nil_iff.1 hne),
    hcolon]
  · simp only [String.append_assoc]
  · intro block hblock
    obtain ⟨a, -, rfl⟩ := List.mem_map.1 hblock
    exact List.cons_ne_nil _ _

theorem Session.IsPlain.isLine_of_mem {s : Session} (h : s.IsPlain) {blocks : List (List String)}
    (hblocks : List.Forall₂ IsBlockOf s.failed blocks) :
    ∀ line ∈ (s.issue ++ ":") :: [""].intercalate blocks, IsLine line := by
  have hall : ∀ block ∈ blocks, ∀ line ∈ block, IsLine line :=
    forall_mem_of_forall₂ hblocks fun a ha block => isLine_of_isBlockOf (h.paths a ha)
  refine List.forall_mem_cons.2 ⟨h.issue.append (by decide), fun line hline => ?_⟩
  rcases mem_of_mem_intercalate hline with hline | ⟨block, hblock, hline⟩
  · obtain rfl := List.mem_singleton.1 hline
    decide
  · exact hall block hblock line hline

theorem Session.report_cases {s : Session} (h : s.IsPlain) (hoptions : s.options = .standard)
    (hne : s.failed ≠ []) :
    (∀ a ∈ s.failed, a.IsReadable) ∧ s.ReportsBlocks ∨
      ∃ e, UnreadableFor e s.failed ∧ s.report.2 = .error (.io e) := by
  have hreport : s.report =
      (s.resolveRows.1, s.resolveRows.2.map fun _ => s.resolveRows.1.render) := by
    rw [report, hoptions]
    rfl
  rw [ReportsBlocks, hreport]
  rcases s.resolveRows_cases with ⟨failed, hrows, hresolves⟩ | ⟨e, he, hrows⟩
  · have hblocks : List.Forall₂ IsBlockOf s.failed (failed.map FileAudit.block) :=
      List.forall₂_map_right_iff.2 (hresolves.imp fun a b hab => hab.isBlockOf)
    have hfailed : failed ≠ [] := by
      rintro rfl
      exact hne (List.forall₂_nil_right_iff.1 hresolves)
    have htidy : s.options.tidy = true := by rw [hoptions]; rfl
    rw [hrows]
    refine .inl ⟨isReadable_of_resolves hresolves, _, ?_, h.isLine_of_mem hblocks, hblocks⟩
    rw [← render_eq_ended (s := { s with failed }) htidy hfailed]
    rfl
  · rw [hrows]
    exact .inr ⟨e, he, rfl⟩

/-! ### All printed forms -/

/-- **Results are printed line by line.**  A text that is tidied has its words with one space
between them; so each violation of a result is one line with its row, in the order of reports,
audits and violations, and a session with failed audits is reported with a line for the issue, a
line for each file and each violation, and one blank line between audits.  This is so if all
files with violations can be read; if not, the error is that of one of them. -/
theorem printed_line_by_line :
    (∀ t : Text, ∃ ws, (∀ us, Text.WordsOf t us ↔ us = ws) ∧ t.tidy = [' '].intercalate ws ∧
      Text.IsTidy t.tidy ∧ t.tidy.tidy = t.tidy ∧
      t.tidy.filter (!Text.isBlank ·) = t.filter (!Text.isBlank ·)) ∧
    (∀ r : AuditResult, r.IsPlain →
      ((∀ a ∈ r.audits, a.IsReadable) → r.PrintsLines) ∧
      ((¬ ∀ a ∈ r.audits, a.IsReadable) →
        ∃ e, UnreadableFor e r.audits ∧ CommandLine.compactLines r = .error (.io e))) ∧
    ∀ s : Session, s.IsPlain → s.options = .standard → s.failed ≠ [] →
      ((∀ a ∈ s.failed, a.IsReadable) → s.ReportsBlocks) ∧
      ((¬ ∀ a ∈ s.failed, a.IsReadable) →
        ∃ e, UnreadableFor e s.failed ∧ s.report.2 = .error (.io e)) := by
  refine ⟨fun t => ?_, fun r hr => ?_, fun s hs hoptions hne => ?_⟩
  · exact ⟨t.words, fun us => Text.wordsOf_iff, t.tidy_eq_intercalate, t.isTidy_tidy, t.tidy_tidy,
      t.filter_tidy⟩
  · rcases AuditResult.compactLines_cases hr with ⟨hall, hlines⟩ | ⟨e, he, herror⟩
    · exact ⟨fun _ => hlines, fun hnot => absurd hall hnot⟩
    · exact ⟨fun hall => absurd hall he.not_isReadable, fun _ => ⟨e, he, herror⟩⟩
  · rcases Session.report_cases hs hoptions hne with ⟨hall, hblocks⟩ | ⟨e, he, herror⟩
    · exact ⟨fun _ => hblocks, fun hnot => absurd hall hnot⟩
    · exact ⟨fun hall => absurd hall he.not_isReadable, fun _ => ⟨e, he, herror⟩⟩

/-- Two files with open tasks; the text of the first violation has several lines. -/
def openTasks : Session where
  issue := "Open tasks"
  options := .standard
  failed := [⟨⟨⟨"a.js"⟩, .ok "x\n/* TODO\n\t a */".toList⟩,
      [⟨"TODO\n\t a".toList, 5, none, by decide⟩]⟩,
    ⟨⟨⟨"b.js"⟩, .ok "// TODO b".toList⟩, [⟨"TODO b".toList, 3, none, by decide⟩]⟩]
  filesChecked := 2

/-- A file with an open task that is gone. -/
def lostTask : Session where
  issue := "Open tasks"
  options := .standard
  failed := [⟨⟨⟨"a.js"⟩, .error .notFound⟩, [⟨"TODO".toList, 0, none, by decide⟩]⟩]
  filesChecked := 1

/-- The result with one report. -/
def resultOf (s : Session) : AuditResult := ⟨[⟨"CL002", "no-todo", .warning, s⟩], s.filesChecked⟩

theorem isPlain_openTasks : openTasks.IsPlain where
  issue := by decide
  paths := List.forall_mem_cons.2 ⟨by decide, List.forall_mem_singleton.2 (by decide)⟩

theorem isPlain_lostTask : lostTask.IsPlain where
  issue := by decide
  paths := List.forall_mem_singleton.2 (by decide)

theorem isPlain_resultOf {s : Session} (h : s.IsPlain) : (resultOf s).IsPlain where
  codes := List.forall_mem_singleton.2 (by decide : IsLine "CL002")
  sessions := List.forall_mem_singleton.2 h

theorem not_isReadable_lostTask : ¬ ∀ a ∈ lostTask.failed, a.IsReadable :=
  UnreadableFor.not_isReadable (e := .notFound) ⟨_, List.mem_cons_self, rfl⟩

theorem audits_resultOf (s : Session) : (resultOf s).audits = s.failed := by
  simp [AuditResult.audits, resultOf]

/-- A session that can be printed, and one that cannot. -/
theorem printed_openTasks :
    (resultOf openTasks).PrintsLines ∧ openTasks.ReportsBlocks ∧
      (∃ e, CommandLine.compactLines (resultOf lostTask) = .error (.io e)) ∧
      ∃ e, lostTask.report.2 = .error (.io e) := by
  obtain ⟨-, hresult, hsession⟩ := printed_line_by_line
  have hreadable : ∀ a ∈ openTasks.failed, a.IsReadable :=
    List.forall_mem_cons.2 ⟨⟨_, rfl⟩, List.forall_mem_singleton.2 ⟨_, rfl⟩⟩
  refine ⟨?_, ?_, ?_, ?_⟩
  · refine (hresult _ (isPlain_resultOf isPlain_openTasks)).1 ?_
    rwa [audits_resultOf]
  · exact (hsession _ isPlain_openTasks rfl (List.cons_ne_nil _ _)).1 hreadable
  · obtain ⟨e, -, herror⟩ := (hresult _ (isPlain_resultOf isPlain_lostTask)).2
      (by rw [audits_resultOf]; exact not_isReadable_lostTask)
    exact ⟨e, herror⟩
  · obtain ⟨e, -, herror⟩ := (hsession _ isPlain_lostTask rfl (List.cons_ne_nil _ _)).2
      not_isReadable_lostTask
    exact ⟨e, herror⟩

/-- Where a file is gone nothing is printed, and a report without audits ends in a blank line. -/
theorem not_printed_line_by_line :
    ((resultOf lostTask).IsPlain ∧ ¬ (resultOf lostTask).PrintsLines) ∧
      (lostTask.IsPlain ∧ lostTask.options = .standard ∧ ¬ lostTask.ReportsBlocks) ∧
      (Session.new "Open tasks").IsPlain ∧ (Session.new "Open tasks").options = .standard ∧
        ¬ (Session.new "Open tasks").ReportsBlocks := by
  refine ⟨⟨isPlain_resultOf isPlain_lostTask, ?_⟩, ⟨isPlain_lostTask, rfl, ?_⟩,
    ⟨by decide, List.forall_mem_nil _⟩, rfl, ?_⟩
  · rintro ⟨lines, hlines, -⟩
    have herror : CommandLine.compactLines (resultOf lostTask) = .error (.io .notFound) := rfl
    cases herror.symm.trans hlines
  · rintro ⟨blocks, hreport, -⟩
    have herror : lostTask.report.2 = .error (.io .notFound) := rfl
    cases herror.symm.trans hreport
  · rintro ⟨blocks, hreport, -, hblocks⟩
    obtain rfl := List.forall₂_nil_left_iff.1 hblocks
    have htext : (Session.new "Open tasks").report.2 = .ok "Open tasks:\n\n" := by decide +kernel
    exact absurd (Except.ok.inj (htext.symm.trans hreport)) (by decide +kernel)

end CartridgeAudit
