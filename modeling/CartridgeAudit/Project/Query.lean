/-
CartridgeAudit/Project/Query.lean

Which files of a project a rule looks at.
-/
import CartridgeAudit.Project.Generation
import CartridgeAudit.Project.Path

namespace CartridgeAudit

/-- A directory of the project, and what the files in it have to meet: one of
the endings, one of the parts in the relative path, no excluded name on the
way, and a generation. Where no endings or parts are given, all pass. -/
structure FileQuery where
  dir : Path
  endings : List String
  parts : List String
  exclude : List String
  generation : Option Generation
  deriving DecidableEq

namespace FileQuery

/-- All files below a directory. -/
def below (dir : String) : FileQuery := ⟨⟨dir⟩, [], [], [], none⟩

/-- All files of the cartridges. -/
def cartridges : FileQuery := below cartridgesDir

/-- Only files with one of the endings, which are given with bars between them. -/
def withEndings (q : FileQuery) (endings : String) : FileQuery :=
  { q with endings :=
      ((Text.splitOn (· == '|') endings.toList).filter (!·.isEmpty)).map String.ofList }

/-- Only files with one of the parts in their relative path. -/
def including (q : FileQuery) (parts : List String) : FileQuery :=
  { q with parts := q.parts ++ parts }

/-- Without names that match one of the patterns. -/
def excluding (q : FileQuery) (patterns : List String) : FileQuery :=
  { q with exclude := q.exclude ++ patterns }

/-- Only files of cartridges of a generation. -/
def ofGeneration (q : FileQuery) (g : Generation) : FileQuery := { q with generation := some g }

/-- Whether a file name has one of the endings. -/
def meetsEndings (q : FileQuery) (name : String) : Bool :=
  q.endings.isEmpty || q.endings.any fun e => Text.endsWith name.toList e.toList

/-- Whether a relative path has one of the parts. -/
def meetsParts (q : FileQuery) (relative : String) : Bool :=
  q.parts.isEmpty || q.parts.any (occursIn · relative)

/-- Whether a relative path lies in a cartridge of the generation. -/
def meetsGeneration (q : FileQuery) (relative : String) : Bool :=
  match q.generation with
  | none => true
  | some g => (cartridgeOf relative).any fun c => Generation.classify c == g

end FileQuery

end CartridgeAudit
