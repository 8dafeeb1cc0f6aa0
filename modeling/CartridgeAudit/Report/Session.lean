/-
CartridgeAudit/Report/Session.lean

Sessions: what one rule found, file by file.

A session counts the files that are selected and keeps the audits that failed,
in the order in which they were saved.  A file is audited through an `Opening`,
which holds its session until it is saved or dropped; so only one file is open
at a time, and nothing is added to an audit that is closed.

Rows are resolved audit by audit.  If a file cannot be read, resolution stops
there: the audits before it keep their rows and those after it are untouched.
-/
import CartridgeAudit.Project.Path
import CartridgeAudit.Report.Violation

namespace CartridgeAudit

/-- A file and what reading it gives. -/
structure SourceFile where
  path : Path
  content : Except FileError Text

/-- Two files are the same if their paths are. -/
def SourceFile.same (f g : SourceFile) : Bool := f.path.same g.path

/-! ### Audits of one file -/

/-- How a report is written: with rows, and with each text on one line. -/
structure ReportOptions where
  rows : Bool
  tidy : Bool
  deriving DecidableEq

/-- With rows and tidy. -/
def ReportOptions.standard : ReportOptions := ⟨true, true⟩

/-- The violations found in a file, in the order in which they were found. -/
structure FileAudit where
  file : SourceFile
  violations : List Violation

namespace FileAudit

/-- Whether anything was found. -/
def failed (a : FileAudit) : Bool := !a.violations.isEmpty

/-- The audit with the rows that the violations have in a text. -/
def withRows (a : FileAudit) (content : Text) : FileAudit :=
  { a with violations := Violation.resolveRows (newlines content) a.violations }

/-- The audit with its rows, if the file can be read. -/
def resolve (a : FileAudit) : Except FileError FileAudit := a.file.content.map a.withRows

/-- The file's part of a report, with the rows that are known. -/
def render (a : FileAudit) (tidy : Bool) : String :=
  "\n".intercalate (("SOURCE: " ++ a.file.path.text) :: a.violations.map (·.message tidy))

end FileAudit

/-- Resolves the rows of one audit after the other, up to the first file that
cannot be read. -/
def resolveAudits : List FileAudit → List FileAudit × Option FileError
  | [] => ([], none)
  | a :: as =>
      match a.resolve with
      | .error e => (a :: as, some e)
      | .ok a' =>
          let (as', e) := resolveAudits as
          (a' :: as', e)

/-! ### Sessions -/

/-- What a rule found: the issue it verifies, how to report, the audits that
failed, and the number of files it looked at. -/
structure Session where
  issue : String
  options : ReportOptions
  failed : List FileAudit
  filesChecked : Nat

/-- A session with a file that is being audited. -/
structure Opening where
  session : Session
  audit : FileAudit

namespace Session

/-- A session that has seen nothing yet. -/
def new (issue : String) : Session := ⟨issue, .standard, [], 0⟩

/-- Opens a file. -/
def select (s : Session) (f : SourceFile) : Opening :=
  ⟨{ s with filesChecked := s.filesChecked + 1 }, ⟨f, []⟩⟩

/-- Whether no audit failed. -/
def isSuccessful (s : Session) : Bool := s.failed.isEmpty

/-- The number of violations in all failed audits. -/
def violationCount (s : Session) : Nat :=
  s.failed.foldl (fun n audit => n + audit.violations.length) 0

/-- Resolves the rows of all violations, as far as the files can be read. -/
def resolveRows (s : Session) : Session × Except AuditError Unit :=
  let (failed, e) := resolveAudits s.failed
  ({ s with failed }, match e with
    | none => .ok ()
    | some e => .error (.io e))

/-- The text of the report, with the rows that are known. -/
def render (s : Session) : String :=
  s.issue ++ ":\n" ++ "\n\n".intercalate (s.failed.map (·.render s.options.tidy)) ++ "\n"

/-- The report; rows are resolved first if they are wanted. -/
def report (s : Session) : Session × Except AuditError String :=
  if s.options.rows then
    let (s', done) := s.resolveRows
    (s', done.map fun _ => s'.render)
  else (s, .ok s.render)

end Session

namespace Opening

/-- Adds violations that have been built already. -/
def extend (o : Opening) (vs : List Violation) : Opening :=
  { o with audit := { o.audit with violations := o.audit.violations ++ vs } }

/-- Adds a violation; an empty text is refused. -/
def add (o : Opening) (text : Text) (offset : Nat) : Except AuditError Opening :=
  (Violation.new text offset).map fun v => o.extend [v]

/-- Adds what a check finds in the file; if the check fails, nothing is added. -/
def record (o : Opening) (check : SourceFile → Except AuditError (List Violation)) :
    Except AuditError Opening :=
  (check o.audit.file).map o.extend

/-- Closes the file and keeps its audit if that failed. -/
def save (o : Opening) : Session :=
  if o.audit.failed then { o.session with failed := o.session.failed ++ [o.audit] } else o.session

/-- Closes the file and forgets what was found. -/
def discard (o : Opening) : Session := o.session

end Opening

end CartridgeAudit
