/-
CartridgeAudit/Main.lean

The program.  It takes a snapshot of the part of the disk that the command line
reaches, runs, changes the disk as the run says, and prints.
-/
import CartridgeAudit.CommandLine.Reach
import Std.Time.Zoned

namespace CartridgeAudit.CommandLine

/-! ### Snapshots -/

/-- Does something on the disk. A failure that a snapshot can hold is an answer; any
other one ends the program. -/
def attempt (x : IO α) : IO (Except FileError α) := do
  try return .ok (← x)
  catch
    | .noFileOrDirectory .. => return .error .notFound
    | .permissionDenied .. => return .error .denied
    | .inappropriateType .. => return .error .notDirectory
    | .invalidArgument .. => return .error .nameTooLong
    | e => throw e

/-- The place on the disk that a path of a snapshot stands for. -/
def onDisk (p : Path) : IO.FS.DirEntry := ⟨⟨"/"⟩, p.text⟩

/-- The path without links, if it leads anywhere. -/
def resolved (p : Path) : IO (Except FileError Path) := do
  return (← attempt (IO.FS.realPath p.text)).map fun real => ⟨real.toString⟩

/-- A link, as a link to the place that it leads to in the end. One that leads nowhere
is a link to a name that no file has. -/
def readLink (p : Path) : IO Tree := do
  match ← resolved p with
  | .ok target => return .link target
  | .error _ => return .link ⟨"\x00"⟩

/-- What stands at a path: a directory without its entries. A device or a pipe is not
read, since that may not end. -/
def readEntry (p : Path) : IO Tree := do
  match (← (onDisk p).path.symlinkMetadata).type with
  | .dir => return .empty
  | .file => return .file (← attempt (IO.FS.readBinFile p.text))
  | .symlink => readLink p
  | .other => return .special (.error .denied)

/-- The tree at a path. Nothing below names that are never looked at is read, nor
what links lead to. -/
partial def readTree (p : Path) : IO Tree := do
  match ← readEntry p with
  | .directory _ =>
      match ← attempt (onDisk p).path.readDir with
      | .error .denied => return .locked
      | .error _ => return .empty
      | .ok entries =>
          return .directory (← entries.toList.mapM fun e => do
            let below := p.join ⟨e.fileName⟩
            let t ← if alwaysExcluded.contains e.fileName then readEntry below else readTree below
            return (e.fileName, t))
  | t => return t

mutual

/-- Adds what stands at a path, itself, to a snapshot that has the directory above. -/
partial def addEntry (d : Disk) (p : Path) : IO Disk := do
  match p.parent?, p.fileName? with
  | some above, some name =>
      match ← resolved above with
      | .error _ => return d
      | .ok dir =>
          let own := dir.join ⟨name⟩
          match ← attempt (readEntry own) with
          | .error .denied => return d.put (d.namesOf dir) .locked
          | .error _ => return d
          | .ok (.directory _) => return d.createDirectory own
          | .ok (.link target) => addWay (d.put (d.namesOf own) (.link target)) target
          | .ok t => return d.put (d.namesOf own) t
  | _, _ => return d

/-- Adds what stands at a path and above it, and what links there lead to. -/
partial def addWay (d : Disk) (p : Path) : IO Disk :=
  (d.absolute p).ancestors.reverse.foldlM addEntry d

end

/-- The targets of the links in a tree. -/
partial def linksIn : Tree → List Path
  | .directory es => es.flatMap fun (_, t) => linksIn t
  | .link target => [target]
  | .file _ | .locked | .special _ => []

/-- Adds the tree at a path, unless it is there. -/
def addTree (d : Disk) (p : Path) : IO Disk := do
  let d ← addWay d p
  match d.find p with
  | .ok (.directory []) =>
      match ← resolved (d.absolute p) with
      | .error _ => return d
      | .ok real => do
          let t ← readTree real
          (linksIn t).foldlM addWay (d.put (d.namesOf real) t)
  | _ => return d

/-- Reads a device or a pipe that the user names. -/
def readSpecial (d : Disk) (p : Path) : IO Disk := do
  match d.locate p with
  | .ok ⟨above, .special _⟩ => do
      let content ← attempt (IO.FS.readBinFile p.text)
      return d.put (Place.mk above (.special content)).names (.special content)
  | _ => return d

/-- A snapshot of all that a run reaches. -/
def snapshot (current : Path) (r : Reach) : IO Disk := do
  let start : Disk := Disk.createDirectory ⟨.empty, current⟩ current
  let disk ← r.entries.foldlM addWay (← r.trees.foldlM addTree start)
  r.named.foldlM readSpecial disk

/-! ### The program -/

/-- Makes a change on the disk. -/
def perform : Change → IO Unit
  | .directory p => IO.FS.createDirAll p.text
  | .file p content => IO.FS.writeFile p.text content

end CartridgeAudit.CommandLine

open CartridgeAudit CommandLine in
/-- Runs the program. -/
def main (words : List String) : IO UInt32 := do
  let current : Path := ⟨(← IO.currentDir).toString⟩
  let bare : Environment := {
    disk := ⟨.empty, current⟩
    config := ← IO.getEnv "CARTRIDGE_LINT_CONFIG"
    configDir := ← IO.getEnv "CARTRIDGE_LINT_CONFIG_DIR"
    home := ← IO.getEnv "HOME"
    year := (← Std.Time.PlainDate.now).year.toInt }
  let reached := match Invocation.parse bare.config words with
    | .ok i => reach bare i
    | .error _ => ⟨[], [], []⟩
  let outcome := run { bare with disk := ← snapshot current reached } words
  for change in outcome.changes do
    perform change
  for notice in outcome.notices do
    IO.println (" WARN " ++ notice.message)
  IO.print outcome.out
  IO.eprint outcome.err
  return outcome.code.toUInt32
