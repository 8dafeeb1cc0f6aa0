/-
CartridgeAudit/Rule/Basic.lean

Rules.

A rule is a value: its code, its name, the issue it verifies, the weight of a
violation, and a check.  A rule on files looks at one file of its selection at
a time; a rule on the project looks at the project as a whole and decides
itself what it reports on.  A check may fail, which ends the audit, and may
leave notices.
-/
import CartridgeAudit.Config.Settings
import CartridgeAudit.Document.Library
import CartridgeAudit.Pattern.Match

namespace CartridgeAudit

/-! ### Rules on files -/

/-- A file under audit: the file, its text, and the project it belongs to. -/
structure FileView where
  file : SourceFile
  content : Text
  corpus : Corpus

namespace FileView

/-- The path of the file, relative to the project. -/
def relative (v : FileView) : String := v.corpus.relative v.file.path

/-- The cartridge that the file belongs to. -/
def cartridge (v : FileView) : Option String := cartridgeOf v.relative

/-- The generation of that cartridge. -/
def generation (v : FileView) : Option Generation := v.cartridge.map Generation.classify

end FileView

/-- A rule on the files that a query selects. -/
structure Rule where
  code : String
  name : String
  description : String
  severity : Severity
  query : FileQuery
  check : FileView → Audit (List Violation)

namespace Rule

/-- The rule with another severity. -/
def withSeverity (r : Rule) (s : Severity) : Rule := { r with severity := s }

/-- A check that looks at the text of a file only. -/
def onText (check : Text → Except AuditError (List Violation)) (v : FileView) :
    Audit (List Violation) :=
  Audit.ofExcept (check v.content)

end Rule

/-! ### Rules on projects -/

/-- A project under audit. The documents are there if a rule asked for them. -/
structure ProjectView where
  corpus : Corpus
  settings : Settings
  documents? : Option (List Document)

namespace ProjectView

/-- The documents, which have to be loaded. -/
def documents (v : ProjectView) : Except AuditError (List Document) :=
  match v.documents? with
  | some ds => .ok ds
  | none => .error (.configuration .documentsNotLoaded)

/-- Whether the project has cartridges of a generation. -/
def hasGeneration (v : ProjectView) (g : Generation) : Bool :=
  !(v.corpus.cartridges.names g).isEmpty

end ProjectView

/-- A rule on the project as a whole. -/
structure ProjectRule where
  code : String
  name : String
  description : String
  severity : Severity
  needsDocuments : Bool
  check : ProjectView → Session → Audit Session

/-- The rule with another severity. -/
def ProjectRule.withSeverity (r : ProjectRule) (s : Severity) : ProjectRule :=
  { r with severity := s }

/-! ### Violations from matches -/

namespace Pattern

/-- The violation that a match as a whole is. -/
def Match.violation (m : Match) : Except AuditError Violation :=
  Violation.new m.text m.start.offset

/-- One violation for every match. -/
def Regex.violations (r : Regex) (t : Text) : Except AuditError (List Violation) :=
  (r.matchesIn t).mapM (·.violation)

/-- One violation for every match that is not let through. -/
def Regex.violationsWhere (r : Regex) (bad : Match → Bool) (t : Text) :
    Except AuditError (List Violation) :=
  ((r.matchesIn t).filter bad).mapM (·.violation)

end Pattern

end CartridgeAudit
