/-
CartridgeAudit/Rule/Models.lean

Rules on models: each has a unit test, and its constructors call the parent's.
-/
import CartridgeAudit.Rule.Basic
import CartridgeAudit.Rule.Selection
import CartridgeAudit.Script.Function

namespace CartridgeAudit.Rule

open Pattern

/-- Whether the name of a test file ends with the name of the file it tests. -/
def testsFile (name : String) (test : SourceFile) : Bool :=
  Text.endsWith test.path.fileName.toList name.toList

/-- Every model has a unit test whose name ends with its name. -/
def modelUnitTests : Rule where
  code := "CL014"
  name := "model-unit-tests"
  description := "No unit tests were found for models"
  severity := .error
  query := Selection.models
  check := fun v => do
    let name := v.file.path.fileName
    let tests ← v.corpus.files Selection.unitTests
    if tests.any (testsFile name) then return []
    return [← Audit.ofExcept (Violation.new ("no unit test found for " ++ name).toList 0)]

/-- The heads of constructors that do not call the parent's. -/
def constructorsWithoutSuper (t : Text) : Except AuditError (List Violation) := do
  ((← Script.constructors t).filter fun f => !Catalog.superCall.isMatch f.body).mapM
    fun f => Violation.new (Text.trim f.head) f.start

/-- Constructors of models call the parent's. -/
def modelCallsSuper : Rule where
  code := "CL015"
  name := "model-calls-super"
  description := "Models should extend base models and call their constructors"
  severity := .error
  query := Selection.models
  check := onText constructorsWithoutSuper

end CartridgeAudit.Rule
