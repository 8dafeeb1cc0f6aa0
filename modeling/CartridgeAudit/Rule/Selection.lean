/-
CartridgeAudit/Rule/Selection.lean

Selections of files that several rules share.
-/
import CartridgeAudit.Project.Query

namespace CartridgeAudit.Selection

/-- Scripts that run on the server. -/
def serverScripts : FileQuery :=
  (FileQuery.cartridges.withEndings ".js|.ds").excluding ["static", "client"]

/-- Scripts that run in the browser. -/
def clientScripts : FileQuery :=
  (FileQuery.cartridges.withEndings ".js").including ["client/default/js", "js/pages", "static"]

/-- Style sheets. -/
def styles : FileQuery := FileQuery.cartridges.withEndings ".scss|.css"

/-- Templates. -/
def templates : FileQuery := FileQuery.cartridges.withEndings ".isml"

/-- Scripts with models. -/
def models : FileQuery := (FileQuery.cartridges.withEndings ".js|.ds").including ["/models/"]

/-- Controllers of cartridges of a generation. -/
def controllers (g : Generation) : FileQuery :=
  ((FileQuery.cartridges.withEndings ".js|.ds").including ["/controllers/"]).ofGeneration g

/-- Unit tests. -/
def unitTests : FileQuery := (FileQuery.below "test/unit").withEndings ".js"

/-- Integration tests. -/
def integrationTests : FileQuery := (FileQuery.below "test/integration").withEndings ".js"

end CartridgeAudit.Selection
