/-
CartridgeAudit/Proofs/Report/History.lean

What a session holds after any history.

A history is a sequence of operations on a session: files are selected, entries
are made while a file is open, the file is saved, discarded or dropped, and in
between options are set, rows are resolved and reports are written.  What can be
done next depends on whether a file is open; histories are typed by this
*phase*, so that each of them can be run.

What a session should hold is read off its history, with no session in sight:
one `Visit` for each selected file, with what was accepted while the file was
open.  The visits that were saved with something in them are the audits *kept*.

Idea of the proof.  At any time, the audits that have failed and those that the
rest of the history will keep are one list (`State.foreseen`).  An operation
moves audits from the second part to the first, and may give rows to violations
of the first; apart from rows the list stays the same (`Operation.agrees`).  So
a resolution that stops at a file that cannot be read needs no case of its own:
it gives rows to some audits, and the other ones are as they were.  By induction
a run ends with the audits that were foreseen before it (`History.agrees_run`),
and before a new session's first operation these are the ones kept.

The main result is `session_keeps_history`.
-/
import CartridgeAudit.Proofs.Report.Rows
import Mathlib.Algebra.Order.Ring.Nat

namespace CartridgeAudit

namespace Session

theorem violationCount_eq_sum (s : Session) :
    s.violationCount = (s.failed.map fun a => a.violations.length).sum := by
  rw [violationCount, List.sum_eq_foldl, List.foldl_map]

/-! ### Histories -/

/-- Whether a file is open. -/
inductive Phase
  | closed
  | opened

/-- A session, and the file that is being audited if one is open. -/
inductive State : Phase → Type
  | closed (s : Session) : State .closed
  | opened (o : Opening) : State .opened

/-- What can be done with an open file, before it is closed. -/
inductive Entry
  | add (text : Text) (offset : Nat)
  | record (check : SourceFile → Except AuditError (List Violation))

/-- What can be done with a session, with the phases before and after. -/
inductive Operation : Phase → Phase → Type
  | select (file : SourceFile) : Operation .closed .opened
  | enter (entry : Entry) : Operation .opened .opened
  | save : Operation .opened .closed
  | discard : Operation .opened .closed
  | drop : Operation .opened .closed
  | setOptions (options : ReportOptions) : Operation .closed .closed
  | resolveRows : Operation .closed .closed
  | report : Operation .closed .closed

/-- Operations, one after the other. -/
inductive History : Phase → Phase → Type
  | nil {p : Phase} : History p p
  | cons {p q r : Phase} : Operation p q → History q r → History p r

/-! ### Running a history -/

/-- The answer to an entry: the opening with what was accepted, or a failure. -/
def Entry.attempt (o : Opening) : Entry → Except AuditError Opening
  | .add text offset => o.add text offset
  | .record check => o.record check

/-- The opening behind an entry.  A failure leaves the opening it was tried on. -/
def Entry.perform (o : Opening) (e : Entry) : Opening :=
  match e.attempt o with
  | .ok o' => o'
  | .error _ => o

/-- The state behind an operation.  A resolution or report that fails leaves the
rows that were resolved before the failure. -/
def Operation.perform : {p q : Phase} → Operation p q → State p → State q
  | _, _, .select f, .closed s => .opened (s.select f)
  | _, _, .enter e, .opened o => .opened (e.perform o)
  | _, _, .save, .opened o => .closed o.save
  | _, _, .discard, .opened o => .closed o.discard
  | _, _, .drop, .opened o => .closed o.session
  | _, _, .setOptions options, .closed s => .closed { s with options }
  | _, _, .resolveRows, .closed s => .closed s.resolveRows.1
  | _, _, .report, .closed s => .closed s.report.1

/-- The state behind a history. -/
def History.run : {p q : Phase} → History p q → State p → State q
  | _, _, .nil, st => st
  | _, _, .cons op rest, st => rest.run (op.perform st)

/-- The session, also while a file is open. -/
def State.session : {p : Phase} → State p → Session
  | _, .closed s => s
  | _, .opened o => o.session

/-! ### Reading a history -/

/-- What an entry in an open file adds to the audit. -/
def Entry.accepted (f : SourceFile) : Entry → List Violation
  | .add text offset => if h : text = [] then [] else [⟨text, offset, none, h⟩]
  | .record check =>
      match check f with
      | .ok found => found
      | .error _ => []

/-- What the entries add until the open file is closed. -/
def History.accepted (f : SourceFile) : {p q : Phase} → History p q → List Violation
  | _, _, .cons (.enter e) rest => e.accepted f ++ rest.accepted f
  | _, _, _ => []

/-- Whether the open file is saved in the end. -/
def History.saves : {p q : Phase} → History p q → Bool
  | _, _, .cons (.enter _) rest => rest.saves
  | _, _, .cons .save _ => true
  | _, _, _ => false

/-- A selected file with what was accepted while it was open, and whether it was
saved. -/
structure Visit where
  file : SourceFile
  accepted : List Violation
  saved : Bool

/-- The visits of a history, one for each selection. -/
def History.visits : {p q : Phase} → History p q → List Visit
  | _, _, .nil => []
  | _, _, .cons (.select f) rest => ⟨f, rest.accepted f, rest.saves⟩ :: rest.visits
  | _, _, .cons _ rest => rest.visits

/-- The audits of the visits that were saved and held a violation, in the order
in which the visits were saved: a file is closed before the next one is
selected. -/
def keptOf (visits : List Visit) : List FileAudit :=
  (visits.filter fun v => v.saved && !v.accepted.isEmpty).map fun v => ⟨v.file, v.accepted⟩

/-- The checks that are recorded in a history. -/
def History.checks : {p q : Phase} → History p q →
    List (SourceFile → Except AuditError (List Violation))
  | _, _, .nil => []
  | _, _, .cons (.enter (.record check)) rest => check :: rest.checks
  | _, _, .cons _ rest => rest.checks

/-! ### Entries -/

theorem Entry.perform_eq_of_attempt_eq_ok {o o' : Opening} {e : Entry} (h : e.attempt o = .ok o') :
    e.perform o = o' := by
  rw [perform, h]

theorem Entry.perform_eq_of_attempt_eq_error {o : Opening} {e : Entry} {err : AuditError}
    (h : e.attempt o = .error err) : e.perform o = o := by
  rw [perform, h]

theorem Entry.attempt_record_of_error {o : Opening}
    {check : SourceFile → Except AuditError (List Violation)} {err : AuditError}
    (h : check o.audit.file = .error err) : (Entry.record check).attempt o = .error err := by
  rw [attempt, Opening.record, h]
  rfl

theorem extend_nil (o : Opening) : o.extend [] = o := by
  rw [Opening.extend, List.append_nil]

/-- An entry adds what it accepts, and nothing if it fails. -/
theorem Entry.perform_eq_extend (o : Opening) (e : Entry) :
    e.perform o = o.extend (e.accepted o.audit.file) := by
  cases e with
  | add text offset =>
    by_cases h : text = []
    · subst h
      rw [accepted, dif_pos rfl, extend_nil]
      rfl
    · rw [accepted, dif_neg h]
      have hnew : Violation.new text offset = .ok ⟨text, offset, none, h⟩ :=
        Violation.new_eq_ok_iff.2 ⟨rfl, rfl, rfl⟩
      apply perform_eq_of_attempt_eq_ok
      rw [attempt, Opening.add, hnew]
      rfl
  | record check =>
    cases h : check o.audit.file with
    | ok found =>
      have hattempt : (Entry.record check).attempt o = .ok (o.extend found) := by
        rw [attempt, Opening.record, h]
        rfl
      rw [perform_eq_of_attempt_eq_ok hattempt, accepted, h]
    | error err =>
      rw [perform_eq_of_attempt_eq_error (attempt_record_of_error h), accepted, h, extend_nil]

/-! ### What a run keeps -/

/-- The visits that are not over: the open file's, and those of the rest of the
history. -/
def State.upcoming : {p q : Phase} → State p → History p q → List Visit
  | _, _, .closed _, rest => rest.visits
  | _, _, .opened o, rest =>
      ⟨o.audit.file, o.audit.violations ++ rest.accepted o.audit.file, rest.saves⟩ :: rest.visits

/-- The audits that have failed, and those that the rest of the history will keep. -/
def State.foreseen {p q : Phase} (st : State p) (rest : History p q) : List FileAudit :=
  st.session.failed ++ keptOf (st.upcoming rest)

theorem keptOf_cons_of_saved (f : SourceFile) (accepted : List Violation) (visits : List Visit) :
    keptOf (⟨f, accepted, true⟩ :: visits) =
      if accepted = [] then keptOf visits else ⟨f, accepted⟩ :: keptOf visits := by
  cases accepted <;> rfl

/-- Saving moves the open audit to the failed ones, if it failed. -/
theorem failed_save_append (o : Opening) (visits : List Visit) :
    o.save.failed ++ keptOf visits =
      o.session.failed ++ keptOf (⟨o.audit.file, o.audit.violations, true⟩ :: visits) := by
  rw [keptOf_cons_of_saved, Opening.save, FileAudit.failed]
  by_cases h : o.audit.violations = []
  · simp [h]
  · simp [h]

theorem filesChecked_save (o : Opening) : o.save.filesChecked = o.session.filesChecked := by
  rw [Opening.save]
  split <;> rfl

/-- Two moments of a history agree, each with what is still to come then: on the
number of files, and, but for rows, on what is foreseen. -/
structure State.Agrees {p q r : Phase} (st : State p) (rest : History p r) (st' : State q)
    (rest' : History q r) : Prop where
  filesChecked : st.session.filesChecked + rest.visits.length =
    st'.session.filesChecked + rest'.visits.length
  foreseen : KeepsAll (st.foreseen rest) (st'.foreseen rest')

theorem State.Agrees.trans {p q r t : Phase} {st : State p} {st' : State q} {st'' : State r}
    {rest : History p t} {rest' : History q t} {rest'' : History r t}
    (h : st.Agrees rest st' rest') (h' : st'.Agrees rest' st'' rest'') :
    st.Agrees rest st'' rest'' :=
  ⟨h.filesChecked.trans h'.filesChecked, h.foreseen.trans h'.foreseen⟩

/-- The moments before and behind an operation agree. -/
theorem Operation.agrees {p q r : Phase} (op : Operation p q) (st : State p) (rest : History q r) :
    st.Agrees (.cons op rest) (op.perform st) rest := by
  cases op with
  | select f =>
    cases st with
    | closed s => exact ⟨(Nat.add_right_comm s.filesChecked 1 rest.visits.length).symm, .refl _⟩
  | enter e =>
    cases st with
    | opened o =>
      show State.Agrees _ _ (State.opened (e.perform o)) rest
      -- what the entry accepts moves from the history into the open audit
      rw [Entry.perform_eq_extend]
      refine ⟨rfl, ?_⟩
      show KeepsAll (o.session.failed ++ keptOf (⟨o.audit.file, o.audit.violations ++
          (e.accepted o.audit.file ++ rest.accepted o.audit.file), rest.saves⟩ :: rest.visits)) _
      rw [← List.append_assoc]
      exact .refl _
  | save =>
    cases st with
    | opened o =>
      -- nothing is added behind the last entry, and the open audit moves to the failed ones
      refine ⟨congrArg (· + rest.visits.length) (filesChecked_save o).symm, ?_⟩
      show KeepsAll (o.session.failed ++
          keptOf (⟨o.audit.file, o.audit.violations ++ [], true⟩ :: rest.visits))
        (o.save.failed ++ keptOf rest.visits)
      rw [List.append_nil, failed_save_append]
      exact .refl _
  | discard =>
    cases st with
    | opened o => exact ⟨rfl, .refl _⟩
  | drop =>
    cases st with
    | opened o => exact ⟨rfl, .refl _⟩
  | setOptions options =>
    cases st with
    | closed s => exact ⟨rfl, .refl _⟩
  | resolveRows =>
    -- what is still to come has no rows to give yet
    cases st with
    | closed s => exact ⟨rfl, List.rel_append s.keepsAll_resolveRows (KeepsAll.refl _)⟩
  | report =>
    cases st with
    | closed s =>
      refine ⟨congrArg (· + rest.visits.length) s.filesChecked_report.symm, ?_⟩
      exact List.rel_append s.keepsAll_report (KeepsAll.refl _)

/-- The moments before and behind a history agree. -/
theorem History.agrees_run {p q : Phase} (h : History p q) (st : State p) :
    st.Agrees h (h.run st) .nil := by
  induction h with
  | nil => exact ⟨rfl, .refl _⟩
  | cons op rest ih => exact (op.agrees st rest).trans (ih (op.perform st))

/-- In the end nothing is still to come: a file that is open is not saved. -/
theorem State.foreseen_nil {p : Phase} (st : State p) : st.foreseen .nil = st.session.failed := by
  cases st with
  | closed s => exact List.append_nil _
  | opened o => exact List.append_nil _

/-! ### Violations that were accepted -/

/-- A check answers with violations that it makes. -/
def MakesNew (check : SourceFile → Except AuditError (List Violation)) : Prop :=
  ∀ f found, check f = .ok found → ∀ v ∈ found, v.IsNew

theorem Entry.isNew_of_mem_accepted {f : SourceFile} {e : Entry}
    (he : ∀ check, e = .record check → MakesNew check) : ∀ v ∈ e.accepted f, v.IsNew := by
  cases e with
  | add text offset =>
    rw [accepted]
    split
    · exact List.forall_mem_nil _
    · exact List.forall_mem_singleton.2 (Violation.isNew_iff.2 rfl)
  | record check =>
    rw [accepted]
    split
    · next found hfound => exact he check rfl f found hfound
    · exact List.forall_mem_nil _

namespace History

theorem mem_checks_cons {p q r : Phase} {op : Operation p q} {rest : History q r}
    {check : SourceFile → Except AuditError (List Violation)} (h : check ∈ rest.checks) :
    check ∈ (History.cons op rest).checks := by
  cases op with
  | enter e =>
    cases e with
    | add text offset => exact h
    | record check' => exact List.mem_cons_of_mem check' h
  | _ => exact h

variable {p q : Phase} {h : History p q}

theorem isNew_of_mem_accepted (f : SourceFile) (hnew : ∀ check ∈ h.checks, MakesNew check) :
    ∀ v ∈ h.accepted f, v.IsNew := by
  induction h with
  | nil => exact List.forall_mem_nil _
  | cons op rest ih =>
    have hrest := ih fun check hcheck => hnew check (mem_checks_cons hcheck)
    cases op with
    | enter e =>
      refine List.forall_mem_append.2 ⟨Entry.isNew_of_mem_accepted ?_, hrest⟩
      rintro check rfl
      exact hnew check List.mem_cons_self
    | _ => exact List.forall_mem_nil _

theorem isNew_of_mem_visits (hnew : ∀ check ∈ h.checks, MakesNew check) :
    ∀ w ∈ h.visits, ∀ v ∈ w.accepted, v.IsNew := by
  induction h with
  | nil => exact List.forall_mem_nil _
  | cons op rest ih =>
    have hrest := ih fun check hcheck => hnew check (mem_checks_cons hcheck)
    cases op with
    | select f =>
      refine List.forall_mem_cons.2 ⟨isNew_of_mem_accepted f ?_, hrest⟩
      exact fun check hcheck => hnew check (mem_checks_cons hcheck)
    | _ => exact hrest

end History

/-! ### Files that are not saved -/

/-- Entries in an open file, and what is done behind them. -/
def History.entries {q : Phase} (entries : List Entry) (rest : History .opened q) :
    History .opened q :=
  entries.foldr (fun e rest => .cons (.enter e) rest) rest

/-- A file is selected, entries are made, and the file is closed. -/
def History.visit {q : Phase} (f : SourceFile) (entries : List Entry)
    (closing : Operation .opened .closed) (rest : History .closed q) : History .closed q :=
  .cons (.select f) (.entries entries (.cons closing rest))

theorem session_run_entries (entries : List Entry) {q : Phase} (rest : History .opened q) :
    ∀ o : Opening, ∃ o' : Opening, o'.session = o.session ∧
      (History.entries entries rest).run (.opened o) = rest.run (.opened o') := by
  induction entries with
  | nil => exact fun o => ⟨o, rfl, rfl⟩
  | cons e entries ih =>
    intro o
    obtain ⟨o', hsession, hrun⟩ := ih (e.perform o)
    refine ⟨o', ?_, hrun⟩
    -- an entry extends the audit, and the session that the opening holds stays
    rw [hsession, Entry.perform_eq_extend]
    rfl

/-- A visit that is not saved leaves no trace but the count. -/
theorem run_visit_of_ne_save (s : Session) (f : SourceFile) (entries : List Entry)
    {closing : Operation .opened .closed} (h : closing ≠ .save) {q : Phase}
    (rest : History .closed q) :
    (History.visit f entries closing rest).run (.closed s) =
      rest.run (.closed { s with filesChecked := s.filesChecked + 1 }) := by
  obtain ⟨o, hsession, hrun⟩ := session_run_entries entries (.cons closing rest) (s.select f)
  show (History.entries entries (.cons closing rest)).run (.opened (s.select f)) = _
  rw [hrun]
  cases closing with
  | save => exact absurd rfl h
  | discard => exact congrArg (fun s => rest.run (.closed s)) hsession
  | drop => exact congrArg (fun s => rest.run (.closed s)) hsession

/-! ### What a session holds -/

/-- The session behind a history that begins with a new one. -/
def History.session (issue : String) {p : Phase} (h : History .closed p) : Session :=
  (h.run (.closed (Session.new issue))).session

theorem mem_keptOf {visits : List Visit} {a : FileAudit} :
    a ∈ keptOf visits ↔
      ∃ w ∈ visits, w.saved = true ∧ w.accepted ≠ [] ∧ a = ⟨w.file, w.accepted⟩ := by
  simp only [keptOf, List.mem_map, List.mem_filter, Bool.and_eq_true, Bool.not_eq_true',
    List.isEmpty_eq_false_iff, and_assoc, eq_comm (a := a)]

/-- No audit is kept without a violation. -/
theorem violations_ne_nil_of_keepsAll {visits : List Visit} {failed : List FileAudit}
    (h : KeepsAll (keptOf visits) failed) : ∀ a ∈ failed, a.violations ≠ [] := by
  refine forall_mem_of_forall₂ h ?_
  intro b hb a hkeeps ha
  obtain ⟨w, -, -, hne, rfl⟩ := mem_keptOf.1 hb
  -- there are as many violations as were accepted
  have hlength := hkeeps.violations.length_eq
  rw [ha, List.length_nil] at hlength
  exact hne (List.eq_nil_of_length_eq_zero hlength)

theorem violationCount_eq_zero_iff {s : Session} (h : ∀ a ∈ s.failed, a.violations ≠ []) :
    s.violationCount = 0 ↔ s.failed = [] := by
  rw [violationCount_eq_sum, List.sum_eq_zero_iff_forall_eq_nat]
  constructor
  · intro hzero
    refine List.eq_nil_iff_forall_not_mem.2 fun a ha => h a ha ?_
    exact List.eq_nil_of_length_eq_zero (hzero _ (List.mem_map_of_mem ha))
  · rintro hnil
    simp [hnil]

/-- Violations that were accepted as new have their row in their file, or none. -/
theorem row_of_keepsAll {visits : List Visit} {failed : List FileAudit}
    (h : KeepsAll (keptOf visits) failed) (hnew : ∀ w ∈ visits, ∀ v ∈ w.accepted, v.IsNew) :
    ∀ a ∈ failed, ∀ v ∈ a.violations, v.row = none ∨ v.HasRowIn a.file := by
  refine forall_mem_of_forall₂ h ?_
  intro b hb a hkeeps
  obtain ⟨w, hw, -, -, rfl⟩ := mem_keptOf.1 hb
  refine forall_mem_of_forall₂ hkeeps.violations ?_
  intro v hv v' hkeeps'
  have hrow := Violation.isNew_iff.1 (hnew w hw v hv)
  rw [hkeeps.file_eq]
  exact hkeeps'.row.imp_left fun hsame => hsame.trans hrow

/-- **What a session holds** behind any history: it has counted one file for each
selection; its failed audits are those of the visits that were saved with a
violation in them, in that order, each with what was accepted in the order in
which it was accepted, where only rows may have come later, and then they are
right; its number of violations is their sum, and it is successful if that is
zero.

No violation that is kept has an empty text.  If checks answer with violations
that they make, each has its row in its file or no row, also behind a resolution
or a report that failed midway.  This leaves out checks that hand over violations
which were resolved elsewhere: their rows are kept as they are, for whatever file
they were worked out.

An entry with an empty text and a check that fails leave the open file as it
was, and a visit that is not saved leaves no trace but the count. -/
theorem session_keeps_history (issue : String) {p : Phase} (h : History .closed p) :
    (h.session issue).filesChecked = h.visits.length ∧
    KeepsAll (keptOf h.visits) (h.session issue).failed ∧
    (h.session issue).violationCount =
      ((h.session issue).failed.map fun a => a.violations.length).sum ∧
    ((h.session issue).isSuccessful = true ↔ (h.session issue).violationCount = 0) ∧
    (∀ a ∈ (h.session issue).failed, ∀ v ∈ a.violations, v.text ≠ []) ∧
    ((∀ check ∈ h.checks, MakesNew check) →
      ∀ a ∈ (h.session issue).failed, ∀ v ∈ a.violations, v.row = none ∨ v.HasRowIn a.file) ∧
    (∀ (o : Opening) (offset : Nat),
      (Entry.add [] offset).attempt o = .error (.invalidArgument (.emptyText offset)) ∧
        (Entry.add [] offset).perform o = o) ∧
    (∀ (o : Opening) (check : SourceFile → Except AuditError (List Violation)) (err : AuditError),
      check o.audit.file = .error err →
        (Entry.record check).attempt o = .error err ∧ (Entry.record check).perform o = o) ∧
    (∀ (s : Session) (f : SourceFile) (entries : List Entry) (closing : Operation .opened .closed),
      closing ≠ .save → ∀ {q : Phase} (rest : History .closed q),
        (History.visit f entries closing rest).run (.closed s) =
          rest.run (.closed { s with filesChecked := s.filesChecked + 1 })) := by
  -- a new session has counted no file and foresees what its history keeps
  have hagrees := h.agrees_run (.closed (Session.new issue))
  have hkeeps : KeepsAll (keptOf h.visits) (h.session issue).failed := by
    rw [History.session, ← State.foreseen_nil]
    exact hagrees.foreseen
  refine ⟨?_, hkeeps, violationCount_eq_sum _, ?_, ?_, ?_, ?_, ?_, ?_⟩
  · exact hagrees.filesChecked.symm.trans (Nat.zero_add _)
  · rw [violationCount_eq_zero_iff (violations_ne_nil_of_keepsAll hkeeps), isSuccessful,
      List.isEmpty_iff]
  · exact fun _ _ v _ => v.text_ne_nil
  · intro hnew
    exact row_of_keepsAll hkeeps (History.isNew_of_mem_visits hnew)
  · intro o offset
    have hattempt : (Entry.add [] offset).attempt o =
        .error (.invalidArgument (.emptyText offset)) := rfl
    exact ⟨hattempt, Entry.perform_eq_of_attempt_eq_error hattempt⟩
  · intro o check err hcheck
    have hattempt := Entry.attempt_record_of_error hcheck
    exact ⟨hattempt, Entry.perform_eq_of_attempt_eq_error hattempt⟩
  · intro s f entries closing hne q rest
    exact run_visit_of_ne_save s f entries hne rest

/-- A check that reports the content as a whole. -/
def wholeContent (f : SourceFile) : Except AuditError (List Violation) :=
  match f.content with
  | .error e => .error (.io e)
  | .ok content => (Violation.new content 0).map ([·])

theorem makesNew_wholeContent : MakesNew wholeContent := by
  intro f found h
  unfold wholeContent at h
  split at h
  · cases h
  · next content _ =>
    cases hnew : Violation.new content 0 with
    | error e => simp [hnew, Except.map] at h
    | ok v =>
      obtain rfl : [v] = found := by simpa [hnew, Except.map] using h
      exact List.forall_mem_singleton.2 ⟨content, 0, hnew⟩

/-- Two files are saved and another one is dropped.  The check finds something in
the first one, and it fails in the second one, which cannot be read.  There the
report stops. -/
def halfReported : History .closed .closed :=
  .visit ⟨⟨"a.js"⟩, .ok "x\n\nTODO".toList⟩
      [.add "TODO".toList 3, .record wholeContent, .add [] 0] .save <|
    .visit ⟨⟨"b.js"⟩, .error .notFound⟩ [.add "TODO".toList 8, .record wholeContent] .save <|
    .visit ⟨⟨"c.js"⟩, .ok "TODO".toList⟩ [.add "TODO".toList 0] .drop <|
    .cons .report .nil

/-- The violations in the first file have their rows, and the other one has none. -/
theorem session_keeps_history_halfReported :
    (∀ check ∈ halfReported.checks, MakesNew check) ∧
      (∀ a ∈ (halfReported.session "Open tasks").failed, ∀ v ∈ a.violations,
        v.row = none ∨ v.HasRowIn a.file) ∧
      (halfReported.session "Open tasks").failed.map
          (fun a => a.violations.map fun v => (v.text, v.row)) =
        [[("TODO".toList, some 3), ("x\n\nTODO".toList, some 1)], [("TODO".toList, none)]] := by
  have hnew : ∀ check ∈ halfReported.checks, MakesNew check := by
    have hchecks : halfReported.checks = [wholeContent, wholeContent] := rfl
    simpa [hchecks] using makesNew_wholeContent
  obtain ⟨-, -, -, -, -, hrows, -⟩ := session_keeps_history "Open tasks" halfReported
  refine ⟨hnew, hrows hnew, ?_⟩
  show [(Violation.resolveRows (newlines "x\n\nTODO".toList) [⟨"TODO".toList, 3, none, _⟩,
    ⟨"x\n\nTODO".toList, 0, none, _⟩]).map fun v => (v.text, v.row), [("TODO".toList, none)]] = _
  rw [Violation.resolveRows_eq_map]
  decide

end Session

end CartridgeAudit
