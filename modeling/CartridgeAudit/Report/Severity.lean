/-
CartridgeAudit/Report/Severity.lean

How much a broken rule weighs.
-/
import CartridgeAudit.Error

namespace CartridgeAudit

/-- The weight of a rule. -/
inductive Severity
  | info
  | warning
  | error
  deriving DecidableEq

namespace Severity

/-- The lower-case name. -/
def name : Severity → String
  | .info => "info"
  | .warning => "warning"
  | .error => "error"

/-- The place in the order from light to heavy. -/
def rank : Severity → Nat
  | .info => 0
  | .warning => 1
  | .error => 2

/-- Whether a severity weighs at least as much as another. -/
def atLeast (s threshold : Severity) : Bool := threshold.rank ≤ s.rank

/-- The severity of a name. -/
def ofName? : String → Option Severity
  | "info" => some .info
  | "warning" => some .warning
  | "error" => some .error
  | _ => none

/-- The severity of a name that has to be one. -/
def ofName (name : String) : Except AuditError Severity :=
  match ofName? name with
  | some s => .ok s
  | none => .error (.configuration (.unknownSeverity name))

end Severity

end CartridgeAudit
