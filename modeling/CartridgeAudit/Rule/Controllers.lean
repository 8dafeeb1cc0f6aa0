/-
CartridgeAudit/Rule/Controllers.lean

Rules on controllers: tests of the endpoints that answer with JSON, replaced
endpoints, and calls from one controller to another.
-/
import CartridgeAudit.Rule.Models

namespace CartridgeAudit.Rule

open Pattern

/-! ### Integration tests -/

/-- Whether an endpoint answers with JSON. -/
def answersJson (e : Script.Endpoint) : Bool := Text.contains e.body "res.json".toList

/-- The names of endpoints, with commas between them. -/
def endpointNames (es : List Script.Endpoint) : String :=
  String.ofList (Text.join ", ".toList (es.map (·.name)))

/-- The number of test cases in a test file. -/
def testCases (t : Text) : Nat := (Catalog.testCase.matchesIn t).length

/-- What is wrong with the integration tests of a controller with these
endpoints, which answer with JSON: the first test file whose name ends with
that of the controller is missing, or has too few cases. -/
def jsonTestIssue (name : String) (endpoints : List Script.Endpoint) (tests : List SourceFile) :
    Except AuditError (Option String) :=
  let names := endpointNames endpoints
  match tests.find? (testsFile name) with
  | none =>
      .ok (some ("no integration test named " ++ name ++ ", endpoints returning json: " ++ names))
  | some test =>
      match test.content with
      | .error e => .error (.io e)
      | .ok t =>
          let cases := testCases t
          if cases < endpoints.length then
            .ok (some (name ++ s!" has only {cases} test(s) for {endpoints.length}" ++
              " endpoint(s) returning json: " ++ names))
          else .ok none

/-- Endpoints that answer with JSON have integration tests. -/
def controllerJsonTests : Rule where
  code := "CL016"
  name := "controller-json-tests"
  description := "Controllers with JSON responses should have integration tests"
  severity := .error
  query := Selection.controllers .sfra
  check := fun v => do
    let endpoints := (← Audit.ofExcept (Script.endpoints v.content)).filter answersJson
    match endpoints with
    | [] => return []
    | first :: _ => do
        let tests ← v.corpus.files Selection.integrationTests
        match ← Audit.ofExcept (jsonTestIssue v.file.path.fileName endpoints tests) with
        | none => return []
        | some issue => return [← Audit.ofExcept (Violation.new issue.toList first.start)]

/-! ### Replaced endpoints -/

/-- The names of replaced endpoints, where the replacement is registered. -/
def replacedEndpoints (t : Text) : Except AuditError (List Violation) :=
  (Catalog.replacedRoute.matchesIn t).mapM fun m => Violation.new (m.groupText 1) m.start.offset

/-- Endpoints of the storefront are extended, not replaced. -/
def noReplacedEndpoints : Rule where
  code := "CL017"
  name := "no-replaced-endpoints"
  description := "Controllers should prepend or append endpoints, not replace them"
  severity := .error
  query := Selection.controllers .sfra
  check := onText replacedEndpoints

/-! ### Calls between controllers -/

/-- The look-ups of other controllers. -/
def controllerCalls (t : Text) : Except AuditError (List Violation) :=
  Catalog.controllerCall.violations t

/-- Controllers do not call each other. -/
def noControllerCalls : Rule where
  code := "CL018"
  name := "no-controller-calls"
  description := "Controllers should not call other controllers"
  severity := .error
  query := Selection.controllers .controllers
  check := onText controllerCalls

end CartridgeAudit.Rule
