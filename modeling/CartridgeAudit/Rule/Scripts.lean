/-
CartridgeAudit/Rule/Scripts.lean

Rules on server scripts that look for forbidden texts: imports that name a
cartridge, notes of unfinished work, custom attributes of the session, scripts
in the old format, and the global service registry.
-/
import CartridgeAudit.Pattern.Catalog
import CartridgeAudit.Pattern.Template
import CartridgeAudit.Rule.Basic
import CartridgeAudit.Rule.Selection
import CartridgeAudit.Script.Import

namespace CartridgeAudit.Rule

open Pattern

/-! ### Imports -/

/-- The imports whose path begins in a way that is not allowed. -/
def forbiddenImports (t : Text) : Except AuditError (List Violation) :=
  Catalog.requirePath.violationsWhere (fun m => !isAllowedImport (m.groupText 1)) t

/-- Imports must not name a cartridge. -/
def importPaths : Rule where
  code := "CL001"
  name := "require-path-prefix"
  description := "All require paths should not be hardcoded and use *"
  severity := .error
  query := Selection.serverScripts
  check := onText forbiddenImports

/-! ### Unfinished work -/

/-- The notes of unfinished work, each to the end of its line. -/
def todoNotes (t : Text) : Except AuditError (List Violation) := Catalog.todo.violations t

/-- Delivered code has no notes of unfinished work. -/
def noTodo : Rule where
  code := "CL002"
  name := "no-todo"
  description := "The code should not contain any TODOs"
  severity := .warning
  query := FileQuery.cartridges.excluding ["static"]
  check := onText todoNotes

/-! ### Custom attributes of the session -/

/-- The variables that are bound to the session, each once. -/
def sessionAliases (t : Text) : List Text :=
  (Catalog.sessionAlias.matchesIn t).foldl (fun known m =>
      if known.contains (m.groupText 1) then known else known ++ [m.groupText 1])
    []

/-- The lines that reach custom attributes of the session. -/
def sessionCustomUses (t : Text) : Except AuditError (List Violation) := do
  let uses ← Template.sessionCustom.build [(Template.vars, sessionAliases t)]
  uses.violations t

/-- The session has no custom attributes. -/
def noSessionCustom : Rule where
  code := "CL003"
  name := "no-session-custom"
  description := "Session.custom shouldn't be used"
  severity := .error
  query := Selection.serverScripts
  check := onText sessionCustomUses

/-! ### Scripts in the old format -/

/-- Scripts in the old format are for pipelines only. -/
def noOldScripts : Rule where
  code := "CL006"
  name := "no-ds-scripts"
  description := "Only .js files should be used, .ds files are deprecated"
  severity := .error
  query := (FileQuery.cartridges.withEndings ".ds").excluding ["*pipelines", changesCartridges]
  check := fun v => Audit.ofExcept do return [← Violation.new v.file.path.fileName.toList 0]

/-! ### The global service registry -/

/-- The lines that name the global service registry. -/
def registryLines (t : Text) : Except AuditError (List Violation) :=
  Catalog.serviceRegistry.violations t

/-- Services are registered in their cartridge. -/
def localServiceRegistry : Rule where
  code := "CL007"
  name := "local-service-registry"
  description := "LocalServiceRegistry should be used instead of ServiceRegistry"
  severity := .error
  query := Selection.serverScripts
  check := onText registryLines

end CartridgeAudit.Rule
