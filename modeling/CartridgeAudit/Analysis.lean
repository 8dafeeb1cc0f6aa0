/-
CartridgeAudit/Analysis.lean

Running rules over a project.

The rules on files run first, in their order, then the rules on the project.
The documents are loaded in between, and only if a rule that runs needs them.
Rules share nothing else: each has a session of its own.  The first failure
ends the audit, and there is no partial result.
-/
import CartridgeAudit.Report.Result
import CartridgeAudit.Rule.Preset

namespace CartridgeAudit

/-- Attributes the scanner's failures of a step to a file. -/
def Audit.inFile (path : Path) (x : Audit α) : Audit α := fun notices =>
  match x notices with
  | (.error e, rest) => (.error (e.inFile path.text), rest)
  | (.ok a, rest) => (.ok a, rest)

/-- What an audit runs: rules over a corpus, with a configuration. -/
structure Analysis where
  corpus : Corpus
  settings : Settings
  fileRules : List Rule
  projectRules : List ProjectRule
  options : ReportOptions

namespace Analysis

/-- Prepares an audit. A relative root starts at the current directory; the
name patterns given here come before those of the configuration. -/
def openAt (disk : Disk) (root : Path) (settings : Settings) (fileRules : List Rule)
    (projectRules : List ProjectRule) (exclude : List String) (options : ReportOptions) :
    Audit Analysis := do
  let corpus ← Corpus.openAt disk (disk.absolute root) settings.project.excludeChanges
    (exclude ++ settings.exclude)
  return ⟨corpus, settings, fileRules, projectRules, options⟩

/-- The number of rules. -/
def ruleCount (a : Analysis) : Nat := a.fileRules.length + a.projectRules.length

/-- The session of a rule, before it has seen anything. -/
def session (a : Analysis) (issue : String) : Session :=
  { Session.new issue with options := a.options }

/-- The severity of a rule: the configured one, or its own. -/
def severityOf (a : Analysis) (name : String) (own : Severity) : Severity :=
  (a.settings.severity? name).getD own

/-- Checks one file. -/
def checkFile (a : Analysis) (r : Rule) (f : SourceFile) : Audit (List Violation) := do
  match f.content with
  | .error e => throw (.io e)
  | .ok content => Audit.inFile f.path (r.check ⟨f, content, a.corpus⟩)

/-- Checks one file after the other. -/
def checkFiles (a : Analysis) (r : Rule) : List SourceFile → Session → Audit Session
  | [], s => return s
  | f :: fs, s => do
      let found ← a.checkFile r f
      checkFiles a r fs ((s.select f).extend found).save

/-- The report of a rule on files, and the paths of the files it looked at. -/
def runFileRule (a : Analysis) (r : Rule) : Audit (RuleReport × List Path) := do
  let files ← a.corpus.files r.query
  let s ← a.checkFiles r files (a.session r.description)
  return (⟨r.code, r.name, a.severityOf r.name r.severity, s⟩, files.map (·.path))

/-- The report of a rule on the project. -/
def runProjectRule (a : Analysis) (documents : Option (List Document)) (r : ProjectRule) :
    Audit RuleReport := do
  let s ← r.check ⟨a.corpus, a.settings, documents⟩ (a.session r.description)
  return ⟨r.code, r.name, a.severityOf r.name r.severity, s⟩

/-- The documents, if one of the rules needs them. -/
def documentsFor (a : Analysis) (rules : List ProjectRule) : Audit (Option (List Document)) := do
  if rules.any (·.needsDocuments) then return some (← Document.load a.corpus) else return none

/-- The rules on files that are enabled. -/
def enabledFileRules (a : Analysis) : List Rule := a.fileRules.filter (a.settings.isEnabled ·.name)

/-- The rules on the project that are enabled. -/
def enabledProjectRules (a : Analysis) : List ProjectRule :=
  a.projectRules.filter (a.settings.isEnabled ·.name)

/-- The number of different paths, compared by components. -/
def countPaths (paths : List Path) : Nat := ((paths.map (·.components)).eraseDups).length

/-- Runs all enabled rules. -/
def run (a : Analysis) : Audit AuditResult := do
  let onFiles ← a.enabledFileRules.mapM a.runFileRule
  let rules := a.enabledProjectRules
  let documents ← a.documentsFor rules
  let onProject ← rules.mapM (a.runProjectRule documents)
  let result : AuditResult :=
    ⟨onFiles.map (·.1) ++ onProject, countPaths (onFiles.flatMap (·.2))⟩
  if !result.failed.isEmpty then Audit.notify (.rulesFailed result.failed.length)
  return result

end Analysis

end CartridgeAudit
