/-
CartridgeAudit/CommandLine/Reach.lean

How far a run looks: which parts of the disk have to be at hand before it
begins.
-/
import CartridgeAudit.CommandLine.Run

namespace CartridgeAudit.CommandLine

/-- What a run may look at: trees as a whole, and single files or directories
without what is below them; files that the user names are read whatever they are. -/
structure Reach where
  trees : List Path
  entries : List Path
  named : List Path
  deriving DecidableEq

/-- The places where the configuration for a path may be, unless it is named. -/
def configPlaces (e : Environment) (path : Path) : List Path :=
  path.ancestors.flatMap (fun dir =>
    (cartridgesDir :: configNames).map fun name => dir.join ⟨name⟩) ++
  e.sharedDir.toList.map fun dir => dir.join ⟨sharedConfigName⟩

/-- The directories that rules look through. Each of them may be a link. -/
def scannedDirs : List String :=
  [cartridgesDir, "test/unit", "test/integration", Document.documentationDir]

/-- The trees of a project. -/
def projectTrees (root : Path) : List Path := root :: scannedDirs.map fun dir => root.join ⟨dir⟩

/-- How far a command looks for a project, given the configuration that the user names. -/
def reachOf (e : Environment) (config : Option Path) (root : Path) : Reach :=
  ⟨projectTrees root, config.toList ++ configPlaces e root, config.toList⟩

/-- How far a command looks. -/
def reach (e : Environment) (i : Invocation) : Reach :=
  match i.command with
  | .check o => reachOf e i.config o.path
  | .listRules => ⟨[], [], []⟩
  | .init _ => ⟨[], [starterPath], []⟩
  | .fileNames path dir =>
      let r := reachOf e i.config path
      { r with entries := dir.join ⟨listingName⟩ :: r.entries }

end CartridgeAudit.CommandLine
