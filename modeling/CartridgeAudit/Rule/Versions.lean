/-
CartridgeAudit/Rule/Versions.lean

Rules on the configured version and on the manifest.
-/
import CartridgeAudit.Pattern.Catalog
import CartridgeAudit.Project.Manifest
import CartridgeAudit.Rule.Basic
import CartridgeAudit.Text.Number

namespace CartridgeAudit

/-- A file with a text that is at hand. -/
def SourceFile.ofText (path : Path) (t : Text) : SourceFile := ⟨path, .ok t⟩

namespace ProjectRule

open Pattern

/-- Audits one file: each issue becomes a violation at its offset. -/
def auditFile (s : Session) (f : SourceFile) (issues : List (Text × Nat)) :
    Except AuditError Session := do
  let o ← issues.foldlM (fun (o : Opening) (text, offset) => o.add text offset) (s.select f)
  return o.save

/-- The configured cartridge version. -/
def configuredVersion (settings : Settings) : Except AuditError Text :=
  Settings.required settings.project.cartridgeVersion "cartridge_version"

/-! ### The format of the version -/

/-- What is wrong with a version: it has three numbers, of which the first is
the year within its century and the second is at least one. -/
def versionIssues (shortYear : Int) (version : Text) : List (Text × Nat) :=
  let parts := Text.splitOn (· == '.') version
  match parts.map Text.word? with
  | [some year, some release, some _] =>
      (if (year : Int) = shortYear then []
       else [("version ".toList ++ version ++
          (s!" should start with the current year {shortYear}," ++
            " even if certification was submitted in the previous one").toList, 0)]) ++
      (if release = 0 then
        [("partner version of the year in ".toList ++ version ++
          " should be at least 1".toList, Text.byteLength (parts.headD []) + 1)]
       else [])
  | _ => [("version ".toList ++ version ++ " is expected to be in YY.N.N format".toList, 0)]

/-- The configured version has the right format for the year. -/
def versionFormat (year : Int) : ProjectRule where
  code := "CL100"
  name := "cartridge-version-format"
  description := "Version numbers must be in YY.N.N [year].[partner version of the year]." ++
    "[bugfix] format"
  severity := .error
  needsDocuments := false
  check := fun v s => Audit.ofExcept do
    let version ← configuredVersion v.settings
    auditFile s (.ofText (v.corpus.root.join ⟨"project.cartridge_version"⟩) version)
      (versionIssues (year - 2000) version)

/-! ### The manifest -/

/-- The name of the manifest. -/
def manifestName : String := "package.json"

/-- The manifest of the project and what it says. -/
def loadManifest (c : Corpus) : Except AuditError (SourceFile × Manifest) :=
  let path := c.root.join ⟨manifestName⟩
  if c.disk.isFile path then do return (c.fileAt path, ← Manifest.read c.disk path)
  else .error (.configuration (.noManifest manifestName path.text))

/-- The text of a file that has to be readable. -/
def textOf (f : SourceFile) : Except AuditError Text :=
  match f.content with
  | .ok t => .ok t
  | .error e => .error (.io e)

/-- The byte offset of the first occurrence of a text, or zero. -/
def offsetOf (needle t : Text) : Nat :=
  match Text.find? needle t with
  | some c => c.offset
  | none => 0

/-- What is wrong with the version of a manifest. -/
def manifestIssues (expected : Text) (found : Option String) (t : Text) : List (Text × Nat) :=
  match found with
  | none => [(("version is missing in " ++ manifestName).toList, 0)]
  | some version =>
      if version.toList = expected then []
      else [(("version in " ++ manifestName ++ " is " ++ version ++ " while expected ").toList ++
        expected, offsetOf "\"version\"".toList t)]

/-- The manifest names the configured version. -/
def manifestVersion : ProjectRule where
  code := "CL101"
  name := "manifest-version"
  description := "Valid version numbers must be included in the repository's package.json"
  severity := .error
  needsDocuments := false
  check := fun v s => Audit.ofExcept do
    let expected ← configuredVersion v.settings
    let (file, manifest) ← loadManifest v.corpus
    let t ← textOf file
    auditFile s file (manifestIssues expected manifest.version t)

/-- The path to the base cartridge in a manifest leads to the sibling checkout,
if paths are given at all. -/
def repositoryLayout : ProjectRule where
  code := "CL107"
  name := "repo-layout"
  description := "\"base\" path inside package.json should lead to sibling folder " ++
    "../storefront-reference-architecture/cartridges/app_storefront_base/"
  severity := .error
  needsDocuments := false
  check := fun v s => Audit.ofExcept do
    let (file, manifest) ← loadManifest v.corpus
    match manifest.paths with
    | none => return s
    | some paths => do
        let base := ((paths.lookup "base").getD "").toList
        if Catalog.storefrontBasePath.isMatch base then return s
        let offset ← if base.isEmpty then .ok 0 else (textOf file).map (offsetOf base)
        auditFile s file [("paths.base is \"".toList ++ base ++ ['"'], offset)]

end ProjectRule

end CartridgeAudit
