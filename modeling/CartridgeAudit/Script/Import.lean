/-
CartridgeAudit/Script/Import.lean

Paths that scripts may import.
-/
import CartridgeAudit.Text.Cursor

namespace CartridgeAudit

/-- What the path of an import may begin with. -/
def allowedImportStarts : List Text :=
  ["*/", "./", "../", "~/", "dw/", "server"].map String.toList

/-- Whether a path begins in an allowed way. -/
def isAllowedImport (path : Text) : Bool := allowedImportStarts.any (·.isPrefixOf path)

end CartridgeAudit
