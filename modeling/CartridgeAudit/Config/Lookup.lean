/-
CartridgeAudit/Config/Lookup.lean

Where the configuration comes from.

A project's configuration lies in the audited directory or above it, up to the
directory that holds the cartridges; nothing above that directory counts.  If
there is none, the global one counts, and then the standard one.
-/
import CartridgeAudit.Config.Settings
import CartridgeAudit.Project.Generation
import CartridgeAudit.Project.Tree

namespace CartridgeAudit

/-- The configuration in a file. -/
def Settings.load (d : Disk) (p : Path) : Except ConfigError Settings :=
  match d.readText p with
  | .error e => .error (.unreadable p.text e)
  | .ok t => Settings.parse t

/-! ### Configuration files of a project -/

/-- The names of a project's configuration file, the preferred one first. -/
def configNames : List String := ["cartridge-lint.toml", ".cartridge-lint.toml"]

/-- The configuration file in a directory. -/
def configIn (d : Disk) (dir : Path) : Option Path :=
  (configNames.map fun name => dir.join ⟨name⟩).find? d.isFile

/-- Whether a directory holds the cartridges of a project. -/
def holdsCartridges (d : Disk) (dir : Path) : Bool := d.isDirectory (dir.join ⟨cartridgesDir⟩)

/-- The first configuration file in directories that lead upwards. The search
ends where the cartridges are, and before it leaves what lies below them. -/
def configAbove (d : Disk) : List Path → Option Path
  | [] => none
  | dir :: above =>
      match configIn d dir with
      | some p => some p
      | none =>
          if holdsCartridges d dir || !above.any (holdsCartridges d) then none
          else configAbove d above

/-- The nearest directory at or above a path that holds a configuration file or
the cartridges. -/
def projectRoot? (d : Disk) (start : Path) : Option Path :=
  start.ancestors.find? fun dir => (configIn d dir).isSome || holdsCartridges d dir

/-! ### Sources -/

/-- Where the configuration comes from. -/
inductive ConfigSource
  /-- a file that the user names -/
  | explicit (path : Path)
  /-- a file of the project -/
  | project (path : Path)
  /-- the user's file for all projects -/
  | shared (path : Path)
  /-- no file -/
  | standard
  deriving DecidableEq

/-- The name of the file in the directory for all projects. -/
def sharedConfigName : String := "config.toml"

namespace ConfigSource

/-- The source for a path: the file that the user names, else the project's,
else the shared one, else none. -/
def resolve (d : Disk) (audited : Path) (named sharedDir : Option Path) : ConfigSource :=
  match named with
  | some p => .explicit p
  | none =>
      match configAbove d audited.ancestors with
      | some p => .project p
      | none =>
          match (sharedDir.map fun dir => dir.join ⟨sharedConfigName⟩).filter d.isFile with
          | some p => .shared p
          | none => .standard

/-- The file of a source. -/
def path? : ConfigSource → Option Path
  | .explicit p | .project p | .shared p => some p
  | .standard => none

end ConfigSource

end CartridgeAudit
