/-
CartridgeAudit/CommandLine/Output.lean

The printed forms of a result: text with colours, JSON, and one line per
violation.
-/
import CartridgeAudit.CommandLine.Arguments
import CartridgeAudit.Report.Result

namespace CartridgeAudit.CommandLine

/-! ### Colours -/

/-- The sequence that switches to a colour of the terminal. -/
def colour (code : Nat) : String := s!"\x1b[{code}m"

/-- A severity in its colour. -/
def colouredSeverity (s : Severity) : String :=
  let code := match s with
    | .error => 31
    | .warning => 33
    | .info => 34
  colour code ++ s.name ++ colour 0

/-! ### Text -/

/-- The summary in the colour of the worst severity that counts. -/
def summaryLine (r : AuditResult) : String :=
  let code := if 0 < r.count .error then 31 else if 0 < r.count .warning then 33 else 32
  colour code ++ "Found " ++ r.tally ++ colour 0 ++ "\n"

/-- The parts about rules that found something, one after the other, up to the
first that cannot be reported. -/
def textParts : List RuleReport → String × Option AuditError
  | [] => ("", none)
  | r :: rs =>
      if r.passed then textParts rs
      else
        let head := r.code ++ " " ++ r.rule ++ " " ++ colouredSeverity r.severity ++ "\n"
        match r.session.report.2 with
        | .error e => (head, some e)
        | .ok report =>
            let (more, e) := textParts rs
            (head ++ report ++ "\n" ++ more, e)

/-- The result as text. -/
def textOutput (r : AuditResult) : String × Option AuditError :=
  match textParts r.reports with
  | (parts, some e) => (parts, some e)
  | (parts, none) => (parts ++ summaryLine r, none)

/-! ### One line per violation -/

/-- The line of a violation. -/
def compactLine (rule : RuleReport) (a : FileAudit) (v : Violation) : String :=
  a.file.path.text ++ s!":{v.row.getD 1}: " ++ rule.severity.name ++ " [" ++ rule.code ++ "] " ++
    String.ofList (v.shown true)

/-- The lines of a result, in the order of rules, files and violations. -/
def compactLines (r : AuditResult) : Except AuditError (List String) := do
  let resolved ← r.resolveRows
  return resolved.reports.flatMap fun rule =>
    rule.session.failed.flatMap fun a => a.violations.map (compactLine rule a)

/-! ### All forms -/

/-- What is printed of a result, and what went wrong. -/
def output (format : Format) (r : AuditResult) : String × Option AuditError :=
  match format with
  | .text => textOutput r
  | .json =>
      match r.resolveRows with
      | .error e => ("", some e)
      | .ok resolved => (resolved.toJson.pretty ++ "\n", none)
  | .compact =>
      match compactLines r with
      | .error e => ("", some e)
      | .ok lines => (String.join (lines.map (· ++ "\n")), none)

end CartridgeAudit.CommandLine
