/-
CartridgeAudit/Project/Tree.lean

File trees in memory.

An audit looks at a snapshot of the file system: a tree of directories, files and
links, and the directory that relative paths start from.  Looking up a path takes
its steps one by one, where `..` leads back to the directory that has been entered
last.  Every step is taken in a directory, `.` included, and a slash at the end
asks for a directory too.  A link is replaced by the steps of its target, and only
so many links are followed.  Names and paths have a greatest length.

A walk below a directory comes to its entries in the order of their paths, name by
name; an entry with a name that is to be skipped is left out with all that is below.
A walk does not follow links.

What the snapshot leaves out: changes while the audit runs; names that are no text;
permissions of other kinds than to keep a whole directory closed or a file unread;
file systems that do not tell the kind of an entry along with its name; files that are
created behind a link to nothing.
-/
import CartridgeAudit.Error
import CartridgeAudit.Project.Path

namespace CartridgeAudit

/-! ### Paths that can be asked for -/

/-- The greatest number of bytes of a name. -/
def maxNameSize : Nat := 255

/-- The greatest number of bytes of a path. -/
def maxPathSize : Nat := 4095

/-- Refuses a path that cannot be asked for: one with a NUL, an empty one, one that
is too long. -/
def Path.askable (p : Path) : Except FileError Unit :=
  if p.text.toList.contains '\x00' then .error .nulInName
  else if p.text = "" then .error .notFound
  else if maxPathSize < p.text.utf8ByteSize then .error .nameTooLong
  else .ok ()

/-! ### Trees -/

/-- What reading a file gives. -/
abbrev FileContent := Except FileError ByteArray

/-- What stands under a name. -/
inductive Tree
  | file (content : FileContent)
  | directory (entries : List (String × Tree))
  /-- a directory that may neither be listed nor entered -/
  | locked
  /-- a symbolic link -/
  | link (target : Path)
  /-- a device, a pipe or a socket -/
  | special (content : FileContent)

namespace Tree

/-- An empty directory. -/
def empty : Tree := .directory []

/-- Whether this is a directory. -/
def isDirectory : Tree → Bool
  | .directory _ | .locked => true
  | .file _ | .link _ | .special _ => false

/-- What a link leads to. -/
def target? : Tree → Option Path
  | .link target => some target
  | .file _ | .directory _ | .locked | .special _ => none

/-- The content of a file. -/
def content? : Tree → Option FileContent
  | .file content => some content
  | .directory _ | .locked | .link _ | .special _ => none

/-- The entries of a directory at a path. -/
def entriesAt (p : Path) : Tree → Except FileError (List (String × Tree))
  | .directory es => p.askable.map fun _ => es
  | .locked => p.askable >>= fun _ => .error .denied
  | .file _ | .link _ | .special _ => p.askable >>= fun _ => .error .notDirectory

/-- Puts an entry in the place of the one with its name, or at the end. -/
def put (name : String) (t : Tree) : List (String × Tree) → List (String × Tree)
  | [] => [(name, t)]
  | (n, u) :: rest => if n = name then (n, t) :: rest else (n, u) :: put name t rest

/-- Puts a tree below a directory; directories on the way are created, and so
is one in the place of anything else on the way. -/
def insert : List String → Tree → Tree → Tree
  | [], new, _ => new
  | name :: path, new, .directory es =>
      .directory (put name (insert path new ((es.lookup name).getD empty)) es)
  | name :: path, new, _ => .directory [(name, insert path new empty)]

/-! ### Walks -/

/-- Sorts by name. -/
def sortNames (xs : List (String × α)) : List (String × α) :=
  xs.mergeSort fun a b => !decide (b.1 < a.1)

mutual

/-- What a walk comes to, with the names that lead there: a directory comes before
its entries, and those with a name to be skipped are left out. -/
def walk (skip : String → Bool) : Tree → List (List String × Tree)
  | .directory es =>
      ([], .directory es) :: (sortNames (walkEntries skip es)).flatMap fun (name, found) =>
        found.map fun (path, t) => (name :: path, t)
  | .file content => [([], .file content)]
  | .locked => [([], .locked)]
  | .link target => [([], .link target)]
  | .special content => [([], .special content)]

/-- What a walk comes to in each entry. -/
def walkEntries (skip : String → Bool) :
    List (String × Tree) → List (String × List (List String × Tree))
  | [] => []
  | (name, t) :: rest =>
      if skip name then walkEntries skip rest else (name, walk skip t) :: walkEntries skip rest

end

end Tree

/-! ### Snapshots of a file system -/

/-- A file system: the tree below the root, and the current directory. -/
structure Disk where
  root : Tree
  current : Path

/-- A place in a tree, and the directories on the way to it: the nearest first, each
with the name that was entered there. -/
structure Place where
  above : List (String × Tree)
  here : Tree

namespace Place

/-- The place where a tree begins. -/
def top (t : Tree) : Place := ⟨[], t⟩

/-- The names that lead to a place. -/
def names (s : Place) : List String := (s.above.map (·.1)).reverse

/-- The directory that a place lies in; there is none above the top. -/
def up (s : Place) : Place :=
  match s.above with
  | [] => s
  | (_, t) :: above => ⟨above, t⟩

/-- What a directory has under a name. -/
def entry (es : List (String × Tree)) (name : String) : Except FileError Tree :=
  if maxNameSize < name.utf8ByteSize then .error .nameTooLong
  else
    match es.lookup name with
    | none => .error .notFound
    | some t => .ok t

/-- Takes a step. -/
def take (s : Place) (step : Path.Step) : Except FileError Place :=
  match s.here, step with
  | .directory _, .current | .directory _, .slash | .locked, .slash => .ok s
  | .directory _, .parent => .ok s.up
  | .directory es, .normal name => (entry es name).map fun t => ⟨(name, s.here) :: s.above, t⟩
  | .locked, _ => .error .denied
  | _, _ => .error .notDirectory

/-- Takes steps up to the first link. What is left is to be done behind it. -/
def advance (s : Place) : List Path.Step → Except FileError (Place × List Path.Step)
  | [] => .ok (s, [])
  | step :: rest =>
      if s.here.target?.isSome then .ok (s, step :: rest)
      else s.take step >>= fun s => advance s rest

/-- The place where the steps of a link's target begin, in a tree with a root. -/
def origin (root : Tree) (s : Place) (target : Path) : Place :=
  if target.isAbsolute then top root else s.up

/-- Takes steps, following at most so many links, in a tree with a root. -/
def follow (root : Tree) : Nat → Place → List Path.Step → Except FileError Place
  | 0, s, steps => do
      let (s, _) ← s.advance steps
      match s.here.target? with
      | none => return s
      | some _ => throw .tooManyLinks
  | links + 1, s, steps => do
      let (s, rest) ← s.advance steps
      match s.here.target? with
      | none => return s
      | some target => follow root links (s.origin root target) (target.steps ++ rest)

end Place

namespace Disk

/-- A path from the root. -/
def absolute (d : Disk) (p : Path) : Path := d.current.join p

/-- The greatest number of links that are followed on the way of a path. -/
def maxLinks : Nat := 40

/-- Takes the steps from the root. -/
def walkTo (d : Disk) (steps : List Path.Step) : Except FileError Place :=
  (Place.top d.root).follow d.root maxLinks steps

/-- The place that a path leads to. -/
def locate (d : Disk) (p : Path) : Except FileError Place := do
  p.askable
  d.walkTo (d.absolute p).steps

/-- What a path leads to. -/
def find (d : Disk) (p : Path) : Except FileError Tree := (d.locate p).map (·.here)

/-- The place of the directory in which a path takes its last step, and that step;
the root has none. -/
def locateParent (d : Disk) (p : Path) :
    Except FileError (Place × List (String × Tree) × Option Path.Step) := do
  p.askable
  let way := (d.absolute p).way
  let s ← d.walkTo way.dropLast
  match s.here with
  | .directory es => return (s, es, way.getLast?)
  | .locked => throw .denied
  | _ => throw .notDirectory

/-- The directory that a path leads to. -/
def directory? (d : Disk) (p : Path) : Option Tree := (d.find p).toOption.filter (·.isDirectory)

/-- Whether there is a directory. -/
def isDirectory (d : Disk) (p : Path) : Bool := (d.directory? p).isSome

/-- Whether there is a file. -/
def isFile (d : Disk) (p : Path) : Bool :=
  match d.find p with
  | .ok (.file _) => true
  | _ => false

/-- Whether there is anything. -/
def contains (d : Disk) (p : Path) : Bool :=
  match d.find p with
  | .ok _ => true
  | .error _ => false

/-- The bytes of a file. -/
def readBytes (d : Disk) (p : Path) : FileContent :=
  match d.find p with
  | .error e => .error e
  | .ok (.file content) | .ok (.special content) => content
  | .ok .locked => .error .denied
  | .ok _ => .error .isDirectory

/-- The text that bytes are the UTF-8 form of. -/
def decode (bytes : ByteArray) : Except FileError Text :=
  match String.fromUTF8? bytes with
  | some s => .ok s.toList
  | none => .error .notText

/-- The text of a file at a path, given what reading the file gives. -/
def textAt (p : Path) (content : FileContent) : Except FileError Text := do
  p.askable
  decode (← content)

/-- The text of a file. -/
def readText (d : Disk) (p : Path) : Except FileError Text := do
  decode (← d.readBytes p)

/-- The names from the root that a path stands for where there are no links. -/
def namesOf (d : Disk) (p : Path) : List String :=
  ((d.absolute p).components.foldl
    (fun names c =>
      match c with
      | .root => []
      | .current => names
      | .parent => names.drop 1
      | .normal name => name :: names)
    []).reverse

/-- The disk with a tree in place of what names lead to. -/
def put (d : Disk) (names : List String) (t : Tree) : Disk :=
  { d with root := Tree.insert names t d.root }

/-- The disk with a file in a directory that is there. -/
def write (d : Disk) (p : Path) (content : ByteArray) : Disk :=
  d.put (d.namesOf p) (.file (.ok content))

/-- The disk with a directory, unless it has one already. -/
def createDirectory (d : Disk) (p : Path) : Disk :=
  if d.isDirectory p then d else d.put (d.namesOf p) .empty

/-- The disk with a new directory in one that is there. -/
def addDirectory (d : Disk) (p : Path) : Except FileError Disk := do
  match ← d.locateParent p with
  | (s, es, some (.normal name)) =>
      match Place.entry es name with
      | .ok _ => throw .exists
      | .error .notFound => return d.put (s.names ++ [name]) .empty
      | .error e => throw e
  | _ => throw .exists

/-- Adds the first directory of a list that leads upwards for which there is
room, unless one of them is there before. What had to be passed over is
returned, the nearest first. -/
def addFirst (d : Disk) : List Path → Except FileError (Disk × List Path)
  | [] => .ok (d, [])
  | p :: above =>
      if p.parent?.isNone then .ok (d, [])
      else
        match d.addDirectory p with
        | .ok d => .ok (d, [])
        | .error .notFound => (d.addFirst above).map fun (d, ps) => (d, p :: ps)
        | .error e => if e = .exists && d.isDirectory p then .ok (d, []) else .error e

/-- The disk with one directory after the other; one that is there is kept. -/
def addAll (d : Disk) : List Path → Except FileError Disk
  | [] => .ok d
  | p :: ps =>
      match d.addDirectory p with
      | .ok d => d.addAll ps
      | .error e => if e = .exists && d.isDirectory p then d.addAll ps else .error e

/-- The disk with a directory and all directories above it. -/
def createDirectories (d : Disk) (p : Path) : Except FileError Disk := do
  let (d, missing) ← d.addFirst p.ancestors
  d.addAll missing.reverse

/-- The disk with a new file in a directory that is there. -/
def addFile (d : Disk) (p : Path) (content : ByteArray) : Except FileError Disk := do
  match ← d.locateParent p with
  | (s, es, some (.normal name)) =>
      match Place.entry es name with
      | .ok _ => throw .notFound
      | .error .notFound => return d.put (s.names ++ [name]) (.file (.ok content))
      | .error e => throw e
  | _ => throw .isDirectory

/-- The disk with a file in a directory that is there; a directory must not be
in the way. -/
def writeFile (d : Disk) (p : Path) (content : ByteArray) : Except FileError Disk :=
  match d.locate p with
  | .ok s =>
      match s.here with
      | .directory _ | .locked => .error .isDirectory
      | .file _ => .ok (d.put s.names (.file (.ok content)))
      | .link _ | .special _ => .ok d
  | .error .notFound => d.addFile p content
  | .error e => .error e

end Disk

end CartridgeAudit
