/-
CartridgeAudit/Report/Result.lean

The result of an audit: one report per rule, the summary, and the written forms
of both.
-/
import CartridgeAudit.Data.Json
import CartridgeAudit.Report.Session
import CartridgeAudit.Report.Severity

namespace CartridgeAudit

/-- What a rule found in the whole project. -/
structure RuleReport where
  code : String
  rule : String
  severity : Severity
  session : Session

/-- Whether the rule found nothing. -/
def RuleReport.passed (r : RuleReport) : Bool := r.session.isSuccessful

/-- The reports of the rules, in the order in which they ran, and the number of
different files that were looked at. -/
structure AuditResult where
  reports : List RuleReport
  filesChecked : Nat

namespace AuditResult

/-- The reports of rules that found something. -/
def failed (r : AuditResult) : List RuleReport := r.reports.filter (!·.passed)

/-- Whether a rule of at least this severity found something. -/
def hasFailuresAt (r : AuditResult) (s : Severity) : Bool := r.failed.any (·.severity.atLeast s)

/-- The number of rules of a severity that found something. -/
def count (r : AuditResult) (s : Severity) : Nat := (r.failed.filter (·.severity == s)).length

/-- The number of failing rules by severity, of rules, and of files. -/
def tally (r : AuditResult) : String :=
  s!"{r.count .error} error(s), {r.count .warning} warning(s), {r.count .info} info(s)" ++
    s!" over {r.reports.length} rule(s) and {r.filesChecked} file(s)"

/-- The report on all failing rules of at least a severity. -/
def testReport (r : AuditResult) (failOn : Severity) : Except AuditError String := do
  let failing := r.failed.filter (·.severity.atLeast failOn)
  let parts ← failing.mapM fun (rule : RuleReport) => do
    let text ← rule.session.report.2
    return rule.rule ++ " [" ++ rule.code ++ "] " ++ rule.severity.name ++ "\n" ++ text ++ "\n"
  return s!"\n=== cartridge-lint: {failing.length} failing rule(s) ===\n\n" ++
    String.join parts ++ "Total: " ++ r.tally ++ "\n"

/-- The result with all rows resolved. -/
def resolveRows (r : AuditResult) : Except AuditError AuditResult := do
  let reports ← r.reports.mapM fun (rule : RuleReport) => do
    let (session, done) := rule.session.resolveRows
    done
    return { rule with session }
  return { r with reports }

end AuditResult

/-! ### JSON -/

/-- A violation as data. -/
def Violation.toJson (v : Violation) : Json :=
  .object [("text", .string (String.ofList v.text)), ("offset", .nat v.offset),
    ("row", match v.row with
      | some row => .nat row
      | none => .null)]

/-- An audit as data. -/
def FileAudit.toJson (a : FileAudit) : Json :=
  .object [("file", .string a.file.path.text), ("violations", .array (a.violations.map (·.toJson)))]

/-- A session as data. -/
def Session.toJson (s : Session) : Json :=
  .object [("issue", .string s.issue),
    ("options", .object [("rows", .bool s.options.rows), ("beautify", .bool s.options.tidy)]),
    ("failed", .array (s.failed.map (·.toJson))), ("files_checked", .nat s.filesChecked)]

/-- A result as data. -/
def AuditResult.toJson (r : AuditResult) : Json :=
  .object [("reports", .array (r.reports.map fun rule =>
      .object [("code", .string rule.code), ("rule", .string rule.rule),
        ("severity", .string rule.severity.name), ("session", rule.session.toJson)])),
    ("files_checked", .nat r.filesChecked)]

end CartridgeAudit
