/-
CartridgeAudit/Project/Corpus.lean

The source tree of a project, and the selection of files from it.

Selecting and opening may leave notices for the user, so they run in `Audit`:
a computation that may fail and that collects notices, which are kept even if
it fails.
-/
import CartridgeAudit.Project.Glob
import CartridgeAudit.Project.Query
import CartridgeAudit.Project.Tree
import CartridgeAudit.Report.Session

namespace CartridgeAudit

/-! ### Notices -/

/-- Something the user should know, although the audit goes on. -/
inductive Notice
  | noCartridges (directory : Path)
  | nothingToScan (directory : Path)
  | uncoveredGuide (name : String)
  | rulesFailed (count : Nat)
  | unknownRule (name : String)
  deriving DecidableEq

/-- The wording of a notice. -/
def Notice.message : Notice → String
  | .noCartridges directory => "No cartridges directory at " ++ directory.text
  | .nothingToScan directory => directory.text ++ " does not exist, nothing to scan"
  | .uncoveredGuide name => "Guide " ++ name ++ " covers no known generation, skipping it"
  | .rulesFailed count => s!"{count} rule(s) found violations"
  | .unknownRule name => "Unknown rule: " ++ name

/-- A step of an audit: it may fail, and it adds to the notices. -/
abbrev Audit (α : Type) := ExceptT AuditError (StateM (List Notice)) α

namespace Audit

/-- Leaves a notice. -/
def notify (n : Notice) : Audit Unit := fun notices => (.ok (), notices ++ [n])

/-- A step that leaves no notice. -/
def ofExcept (x : Except AuditError α) : Audit α := fun notices => (x, notices)

/-- What a step gives when there are no notices yet. -/
def result (x : Audit α) : Except AuditError α := (x []).1

end Audit

/-! ### The corpus -/

/-- The source tree of a project. -/
structure Corpus where
  disk : Disk
  root : Path
  excludeChanges : Bool
  /-- name patterns that are left out of every selection -/
  exclude : List String
  cartridges : CartridgeSet

/-- Names that are never looked at. -/
def alwaysExcluded : List String := ["node_modules", "vendor"]

/-- Names of cartridges with changes to the reference storefront. -/
def changesCartridges : String := "*changes"

/-- A name pattern that has to be valid. -/
def globOf (pattern : String) : Except AuditError (List Glob.Token) :=
  match Glob.parse pattern with
  | .ok ts => .ok ts
  | .error f => .error (.glob f.message)

namespace Corpus

/-- The cartridges in a directory. -/
def listCartridges (disk : Disk) (dir : Path) : Audit CartridgeSet := do
  match disk.directory? dir with
  | some t => do
      let es ← Audit.ofExcept ((t.entriesAt dir).mapError .io)
      return CartridgeSet.ofNames ((es.filter (·.2.isDirectory)).map (·.1))
  | none => do
      Audit.notify (.noCartridges dir)
      return ⟨[]⟩

/-- Opens the source tree at a path. -/
def openAt (disk : Disk) (root : Path) (excludeChanges : Bool) (exclude : List String) :
    Audit Corpus := do
  let _ ← Audit.ofExcept (exclude.mapM globOf)
  let cartridges ← listCartridges disk (root.join ⟨cartridgesDir⟩)
  return ⟨disk, root, excludeChanges, exclude, cartridges⟩

/-- A path relative to the root. -/
def relative (c : Corpus) (p : Path) : String := Path.relativeTo c.root p

/-- The name patterns that a selection leaves out. -/
def skipped (c : Corpus) (q : FileQuery) : List String :=
  alwaysExcluded ++ (if c.excludeChanges then [changesCartridges] else []) ++ c.exclude ++ q.exclude

/-- A file of the corpus. -/
def fileAt (c : Corpus) (p : Path) : SourceFile := ⟨p, c.disk.readText p⟩

/-- Whether a file at a path meets a query. -/
def meets (c : Corpus) (q : FileQuery) (p : Path) : Bool :=
  q.meetsEndings p.fileName && q.meetsParts (c.relative p) && q.meetsGeneration (c.relative p)

/-- What a walk finds at a path: a file, or nothing that counts. A directory has to be
readable. -/
def visit (p : Path) (t : Tree) : Except AuditError (Option (Path × FileContent)) :=
  match t with
  | .file content => .ok (some (p, content))
  | .link _ | .special _ => .ok none
  | .directory _ | .locked => ((t.entriesAt p).mapError (.walk p.text)).map fun _ => none

/-- The files below a directory, in the order of their paths, without those on whose
way a name matches one of the patterns. -/
def filesBelow (patterns : List (List Glob.Token)) (dir : Path) (t : Tree) :
    Except AuditError (List (Path × FileContent)) := do
  let found ← (t.walk fun name => patterns.any (Glob.isMatch · name.toList)).mapM
    fun (names, t) => visit (dir.descend names) t
  return found.reduceOption

/-- The files that a query selects, in the order of their paths. -/
def files (c : Corpus) (q : FileQuery) : Audit (List SourceFile) := do
  let dir := c.root.join q.dir
  match c.disk.directory? dir with
  | some t => do
      let patterns ← Audit.ofExcept ((c.skipped q).mapM globOf)
      let found ← Audit.ofExcept (filesBelow patterns dir t)
      return (found.filter fun f => c.meets q f.1).map fun (p, content) =>
        ⟨p, Disk.textAt p content⟩
  | none => do
      Audit.notify (.nothingToScan dir)
      return []

end Corpus

end CartridgeAudit
