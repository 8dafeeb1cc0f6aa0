/-
CartridgeAudit/Report/Violation.lean

Violations and the rows they stand in.

A violation is the offending text, which is not empty, with its byte offset.  Its
row is worked out only when it is needed: one more than the number of newlines
before the offset.

A single offset is looked up among the newlines (`rowOf`).  The violations of a
file get their rows in one merge pass (`Violation.resolveRows`): they are visited
in the order of their offsets, and each visit goes on over the newlines from where
the one before has stopped.  The violations themselves stay where they are.
-/
import CartridgeAudit.Error
import CartridgeAudit.Text.Blank

namespace CartridgeAudit

/-! ### Rows -/

/-- The byte offsets of the newlines, counting from `offset`. -/
def newlinesFrom : Nat → Text → List Nat
  | _, [] => []
  | offset, c :: cs =>
      if c = '\n' then offset :: newlinesFrom (offset + c.utf8Size) cs
      else newlinesFrom (offset + c.utf8Size) cs

/-- The byte offsets of the newlines of a text. -/
def newlines (t : Text) : List Nat := newlinesFrom 0 t

/-- The row of a byte offset, given the newlines: one more than the number of
newlines before it. -/
def rowOf (newlines : List Nat) (offset : Nat) : Nat := (newlines.takeWhile (· < offset)).length + 1

/-! ### Violations -/

/-- An offending text, where it stands, and its row once that is known. -/
structure Violation where
  text : Text
  offset : Nat
  row : Option Nat
  text_ne_nil : text ≠ []
  deriving DecidableEq

namespace Violation

/-- A violation with a text, which must not be empty. -/
def new (text : Text) (offset : Nat) : Except AuditError Violation :=
  match text with
  | [] => .error (.invalidArgument (.emptyText offset))
  | c :: cs => .ok ⟨c :: cs, offset, none, List.cons_ne_nil c cs⟩

/-- The text to show: on one line if it is to be tidy. -/
def shown (v : Violation) (tidy : Bool) : Text := if tidy then v.text.tidy else v.text

/-- The line of a report about a violation. -/
def message (v : Violation) (tidy : Bool) : String :=
  match v.row with
  | some row => s!"   row {row}: " ++ String.ofList (v.shown tidy)
  | none => "   " ++ String.ofList (v.shown tidy)

/-- The violation in a row. -/
def withRow (v : Violation) (row : Nat) : Violation := { v with row := some row }

end Violation

/-! ### The merge pass -/

/-- Goes on over the newlines before an offset: how many have been passed then,
and those ahead. -/
def passTo (offset : Nat) : Nat → List Nat → Nat × List Nat
  | passed, [] => (passed, [])
  | passed, n :: ahead =>
      if n < offset then passTo offset (passed + 1) ahead else (passed, n :: ahead)

/-- Visits violations one after the other and gives each its row. -/
def mergeRows {k : Nat} :
    List (Fin k) → Nat → List Nat → Vector Violation k → Vector Violation k
  | [], _, _, vs => vs
  | i :: order, passed, ahead, vs =>
      let (passed, ahead) := passTo (vs.get i).offset passed ahead
      mergeRows order passed ahead (vs.set i ((vs.get i).withRow (passed + 1)) i.isLt)

/-- The places of violations, in the order of their offsets; those with one offset
stay in their order. -/
def offsetOrder {k : Nat} (vs : Vector Violation k) : List (Fin k) :=
  (List.finRange k).mergeSort fun i j => (vs.get i).offset ≤ (vs.get j).offset

/-- The violations with their rows, given the newlines. -/
def Violation.resolveRows (newlines : List Nat) (vs : List Violation) : List Violation :=
  let vs := vs.toArray.toVector
  (mergeRows (offsetOrder vs) 0 newlines vs).toList

end CartridgeAudit
