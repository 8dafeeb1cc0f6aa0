/-
CartridgeAudit/Rule/Preset.lean

All rules, and presets: named selections of them.
-/
import CartridgeAudit.Rule.ClientSide
import CartridgeAudit.Rule.Closing
import CartridgeAudit.Rule.Controllers
import CartridgeAudit.Rule.Guides
import CartridgeAudit.Rule.Jobs
import CartridgeAudit.Rule.Scripts
import CartridgeAudit.Rule.Templates

namespace CartridgeAudit

/-! ### All rules -/

/-- All rules on files, by their codes, with the options of a configuration. -/
def fileRules (settings : Settings) : List Rule :=
  [Rule.importPaths, Rule.noTodo, Rule.noSessionCustom, Rule.closeReadersWriters,
   Rule.closeIterators Rule.platformClasses, Rule.noOldScripts, Rule.localServiceRegistry,
   Rule.noHardcodedUrls, Rule.noPxSizes (Rule.maxPxOf (settings.rule? "no-px-sizes")),
   Rule.noImportant, Rule.noHardcodedStrings, Rule.noUnencodedOutput, Rule.noInlineStyles,
   Rule.modelUnitTests, Rule.modelCallsSuper, Rule.controllerJsonTests, Rule.noReplacedEndpoints,
   Rule.noControllerCalls, Rule.jobMetadata (Rule.siteOf (settings.rule? "job-metadata"))]

/-- All rules on the project, by their codes, in a year. -/
def projectRules (settings : Settings) (year : Int) : List ProjectRule :=
  [ProjectRule.versionFormat year, ProjectRule.manifestVersion, ProjectRule.guideTitleVersion,
   ProjectRule.guideSfraVersion, ProjectRule.guideCompatibility,
   ProjectRule.guideAvailability
     (ProjectRule.minLengthOf (settings.rule? "guide-availability")),
   ProjectRule.overviewDocument, ProjectRule.repositoryLayout]

/-! ### Presets -/

/-- A named selection of rules. -/
inductive Preset
  /-- every rule on files, and the rules on versions and layout -/
  | recommended
  /-- every rule, and no mere warnings -/
  | strict
  /-- the rules on safe scripts -/
  | minimal
  deriving DecidableEq

namespace Preset

/-- The name of a preset. -/
def name : Preset → String
  | .recommended => "recommended"
  | .strict => "strict"
  | .minimal => "minimal"

/-- The preset of a name, in any case. -/
def ofName? (s : String) : Option Preset :=
  [recommended, strict, minimal].find? fun p => p.name == lowered s

/-- The rules on files of a preset. -/
def fileRules (p : Preset) (settings : Settings) : List Rule :=
  match p with
  | .recommended => CartridgeAudit.fileRules settings
  | .strict => (CartridgeAudit.fileRules settings).map (·.withSeverity .error)
  | .minimal =>
      [Rule.importPaths, Rule.noSessionCustom, Rule.closeReadersWriters,
       Rule.closeIterators Rule.platformClasses, Rule.localServiceRegistry]

/-- The rules on the project of a preset. -/
def projectRules (p : Preset) (settings : Settings) (year : Int) : List ProjectRule :=
  match p with
  | .recommended =>
      [ProjectRule.versionFormat year, ProjectRule.manifestVersion, ProjectRule.repositoryLayout]
  | .strict => CartridgeAudit.projectRules settings year
  | .minimal => []

end Preset

end CartridgeAudit
