/-
CartridgeAudit/Project/Path.lean

Paths as they are written, and their components.

A path keeps its text, because reports show it as it was put together: joining
`.` and `cartridges` shows as `./cartridges`.  Everything else goes by
components: repeated and trailing slashes do not count, nor does a `.` except
at the front of a relative path.
-/
import CartridgeAudit.Text.Search

namespace CartridgeAudit

/-- A part of a path. -/
inductive Component
  | root
  | current
  | parent
  | normal (name : String)
  deriving DecidableEq

/-- A path, as it is written. -/
structure Path where
  text : String
  deriving DecidableEq

namespace Path

/-- The pieces between slashes. -/
def pieces (p : Path) : List String :=
  (Text.splitOn (· == '/') p.text.toList).map String.ofList

/-- Whether a path starts at the root. -/
def isAbsolute (p : Path) : Bool := p.text.toList.head? == some '/'

/-- What a piece other than the first stands for. -/
def componentOf (piece : String) : Option Component :=
  if piece = "" || piece = "." then none
  else if piece = ".." then some .parent
  else some (.normal piece)

/-- The components of a path. -/
def components (p : Path) : List Component :=
  let inner := p.pieces.filterMap componentOf
  if p.isAbsolute then .root :: inner
  else if p.pieces.head? = some "." then .current :: inner
  else inner

/-- Whether a path ends with a slash, and so stands for a directory. -/
def endsInSlash (p : Path) : Bool := p.text.toList.getLast? == some '/'

/-- A step of a walk along a path. -/
inductive Step
  | current
  | parent
  | normal (name : String)
  /-- no step, but the demand that what has been reached is a directory -/
  | slash
  deriving DecidableEq

/-- The step that a piece stands for. -/
def stepOf (piece : String) : Option Step :=
  if piece = "" then none
  else if piece = "." then some .current
  else if piece = ".." then some .parent
  else some (.normal piece)

/-- The steps along a path; unlike the components they keep every `.`, which can
be taken in a directory only. -/
def way (p : Path) : List Step := p.pieces.filterMap stepOf

/-- The steps along a path, and the demand for a directory behind a slash at the end. -/
def steps (p : Path) : List Step := p.way ++ if p.endsInSlash then [.slash] else []

/-- Whether two paths have the same components. -/
def same (p q : Path) : Bool := p.components == q.components

/-- The last component, if it is a name. -/
def fileName? (p : Path) : Option String :=
  match p.components.getLast? with
  | some (.normal name) => some name
  | _ => none

/-- The file name, or the empty text. -/
def fileName (p : Path) : String := p.fileName?.getD ""

/-- A path followed by another; an absolute one replaces the first. -/
def join (p q : Path) : Path :=
  if q.isAbsolute then q
  else if p.text = "" || p.text.toList.getLast? = some '/' then ⟨p.text ++ q.text⟩
  else ⟨p.text ++ "/" ++ q.text⟩

/-- The path of what names lead to from a directory. -/
def descend (dir : Path) (below : List String) : Path :=
  below.foldl (fun p name => p.join ⟨name⟩) dir

/-- The names in a list of components. -/
def names (cs : List Component) : List String :=
  cs.filterMap fun
    | .normal name => some name
    | _ => none

/-- What is left of a list of components behind another. -/
def dropComponents : List Component → List Component → Option (List Component)
  | [], cs => some cs
  | _ :: _, [] => none
  | b :: bs, c :: cs => if b = c then dropComponents bs cs else none

/-- The names of a path below `base`, or all its names if it does not lie below. -/
def namesBelow (base p : Path) : List String :=
  names ((dropComponents base.components p.components).getD p.components)

/-- A path below `base`, written with slashes; one that does not lie below
keeps all its names. -/
def relativeTo (base p : Path) : String := "/".intercalate (namesBelow base p)

/-- Drops the pieces at the end that stand for nothing; pieces are given last
first. -/
def dropVoid (pieces : List String) : List String :=
  pieces.dropWhile fun p => (componentOf p).isNone

/-- The path without its last component, as it is written; the root and the
empty path have no parent. -/
def parent? (p : Path) : Option Path :=
  match p.pieces with
  | [] => none
  | first :: rest =>
      match dropVoid rest.reverse with
      | [] => if first = "" then none else some ⟨""⟩
      | _ :: before =>
          match dropVoid before with
          | [] => some ⟨if first = "" then "/" else first⟩
          | kept => some ⟨"/".intercalate (first :: kept.reverse)⟩

/-- The path and its parents, the nearest first; `n` bounds their number. -/
def ancestorsUpTo : Nat → Path → List Path
  | 0, p => [p]
  | n + 1, p =>
      match p.parent? with
      | none => [p]
      | some q => p :: ancestorsUpTo n q

/-- The path and its parents, the nearest first. -/
def ancestors (p : Path) : List Path := ancestorsUpTo p.components.length p

end Path

end CartridgeAudit
