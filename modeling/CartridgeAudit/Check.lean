/-
CartridgeAudit/Check.lean

One call that audits a project and says why it does not pass.
-/
import CartridgeAudit.Analysis
import CartridgeAudit.Config.Lookup

namespace CartridgeAudit

/-- What a caller asks for. What is left out comes from the configuration, then
from the standard: the recommended rules, failing on errors. -/
structure CheckRequest where
  preset : Option String
  config : Option String
  failOn : Option String
  deriving DecidableEq

/-- Why a project does not pass. -/
inductive CheckFailure
  | unreadableConfig (path : String) (cause : FileError)
  | malformedConfig (cause : ConfigError)
  | unknownPreset (name : String)
  | unknownSeverity (cause : AuditError)
  | notOpened (cause : AuditError)
  | auditFailed (cause : AuditError)
  | notReported (cause : AuditError)
  /-- rules of the severity in question found something -/
  | violations (report : String)
  deriving DecidableEq

/-- The wording of a failure; a failure of the audit itself begins with the
name of the program. -/
def CheckFailure.message : CheckFailure → String
  | .unreadableConfig path cause =>
      "cartridge-lint: failed to read config from " ++ path ++ ": " ++ cause.message
  | .malformedConfig cause => "cartridge-lint: failed to parse config: " ++ cause.message
  | .unknownPreset name =>
      "cartridge-lint: unknown preset `" ++ name ++
        "`. Valid presets: recommended, strict, minimal"
  | .unknownSeverity cause => "cartridge-lint: " ++ cause.message
  | .notOpened cause => "cartridge-lint: failed to build analyzer: " ++ cause.message
  | .auditFailed cause => "cartridge-lint: audit failed: " ++ cause.message
  | .notReported cause => "cartridge-lint: failed to format report: " ++ cause.message
  | .violations report => report

namespace Check

/-- The file with the configuration: the named one, or the first of the usual
names that is there. -/
def configPath? (d : Disk) (root : Path) (named : Option String) : Option Path :=
  match named with
  | some name => some (root.join ⟨name⟩)
  | none => (configNames.map fun name => root.join ⟨name⟩).find? d.contains

/-- The configuration of the project at a root. -/
def settings (d : Disk) (root : Path) (named : Option String) : Except CheckFailure Settings :=
  match configPath? d root named with
  | none => .ok .standard
  | some path =>
      match d.readText path with
      | .error e => .error (.unreadableConfig path.text e)
      | .ok t => (Settings.parse t).mapError .malformedConfig

/-- The preset of the request, of the configuration, or the recommended one. -/
def preset (r : CheckRequest) (s : Settings) : Except CheckFailure Preset :=
  let name := (r.preset <|> s.preset).getD Preset.recommended.name
  match Preset.ofName? name with
  | some p => .ok p
  | none => .error (.unknownPreset name)

/-- The severity of the request, of the configuration, or errors. -/
def failOn (r : CheckRequest) (s : Settings) : Except CheckFailure Severity :=
  (Severity.ofName ((r.failOn <|> s.failOn).getD Severity.error.name)).mapError .unknownSeverity

/-- The root of the project that a directory belongs to, or the directory. -/
def rootOf (d : Disk) (start : Path) : Path := (projectRoot? d start).getD start

/-- Audits the project at a root in a year. It passes if no rule of the severity
in question finds anything. -/
def run (d : Disk) (root : Path) (year : Int) (r : CheckRequest) : Except CheckFailure Unit := do
  let s ← settings d root r.config
  let p ← preset r s
  let threshold ← failOn r s
  let a ← (Analysis.openAt d (root.join ⟨s.project.root⟩) s (p.fileRules s) (p.projectRules s year)
    [] .standard).result.mapError .notOpened
  let result ← a.run.result.mapError .auditFailed
  if result.hasFailuresAt threshold then
    .error (.violations (← (result.testReport threshold).mapError .notReported))

end Check

end CartridgeAudit
