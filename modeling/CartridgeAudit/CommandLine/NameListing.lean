/-
CartridgeAudit/CommandLine/NameListing.lean

The listing of templates and scripts, in which names that break the convention
are marked.

Controllers are named in capitalized words, everything else begins in lower
case.  The mark is an arrow that reaches to a fixed column, as long as the path
leaves room for it.
-/
import CartridgeAudit.Pattern.Catalog
import CartridgeAudit.Project.Corpus

namespace CartridgeAudit.CommandLine

open Pattern

/-- The files of the listing. -/
def listedFiles : FileQuery :=
  (FileQuery.cartridges.withEndings ".isml|.js").excluding ["sg_changes", "client", "static"]

/-- The text behind the last slash. -/
def lastPiece (relative : String) : Text := (Text.splitOn (· == '/') relative.toList).getLastD []

/-- Whether the name of a file follows the convention for its place. Templates
of controllers may have any name. -/
def isValidName (relative : String) : Bool :=
  if occursIn "/controllers/" relative then Catalog.pascalCaseName.isMatch (lastPiece relative)
  else if occursIn "controllers" relative && occursIn "/templates/" relative then true
  else Catalog.camelCaseName.isMatch (lastPiece relative)

/-- The column that arrows reach to. -/
def arrowColumn : Nat := 130

/-- The length of the arrow behind a path of so many bytes. -/
def arrowLength (bytes : Nat) : Nat := if 2 < arrowColumn - bytes then arrowColumn - bytes else 10

/-- The mark behind a path. -/
def attentionMark (relative : String) : String :=
  if isValidName relative then ""
  else " <" ++ String.ofList (List.replicate (arrowLength relative.utf8ByteSize - 1) '-') ++
    "NEEDS CHECK"

/-- A path without the directory of the cartridges. -/
def belowCartridges (relative : String) : String :=
  let t := relative.toList
  if cartridgesDir.toList.isPrefixOf t then
    String.ofList ((t.drop cartridgesDir.length).dropWhile (· == '/'))
  else relative

/-- Whether a path lies in a cartridge with pipelines. -/
def inPipelines (relative : String) : Bool :=
  (cartridgeOf relative).any fun c => Generation.classify c == .pipelines

/-- The line of a file. -/
def listingLine (relative : String) : String :=
  belowCartridges relative ++ attentionMark relative ++ "\n"

/-- The listing: one line per file, except for cartridges with pipelines. -/
def nameListing (c : Corpus) : Audit String := do
  let paths := (← c.files listedFiles).map fun f => c.relative f.path
  return String.join ((paths.filter (!inPipelines ·)).map listingLine)

end CartridgeAudit.CommandLine
