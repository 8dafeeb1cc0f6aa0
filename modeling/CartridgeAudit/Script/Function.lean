/-
CartridgeAudit/Script/Function.lean

Functions and routes of a script: each is found by the pattern of its head and
spans from there to the end of the scope that follows.
-/
import CartridgeAudit.Pattern.Catalog
import CartridgeAudit.Script.Scope
import CartridgeAudit.Text.LetterCase

namespace CartridgeAudit.Script

open Pattern

/-! ### Functions -/

/-- A function that is declared or assigned: its name, where its head begins,
where its body ends, the text up to the body, and the body with its braces. -/
structure Function where
  name : Text
  start : Nat
  stop : Nat
  head : Text
  body : Text
  deriving DecidableEq

namespace Function

/-- Whether a byte offset lies in the span of the function. -/
def contains (f : Function) (offset : Nat) : Bool := f.start ≤ offset && offset < f.stop

/-- Whether the name begins with an upper-case letter. -/
def isConstructor (f : Function) : Bool :=
  match f.name with
  | [] => false
  | c :: _ => Text.isUpper c

/-- The function whose head was matched. The head ends with the bracket that
opens the parameters; the body begins at the next brace behind them. -/
def ofHeader (header : Match) (name : Text) : Except AuditError Function := do
  let paramsEnd ← closeScope header.stop.prev
  match Text.findFrom ['\x7b'] paramsEnd.before paramsEnd.after with
  | none => .error (.scan (.missingSequence [['\x7b']] paramsEnd.offset))
  | some brace => do
      let stop ← closeScope brace
      return ⟨name, header.start.offset, stop.offset, header.start.upTo brace, brace.upTo stop⟩

end Function

/-- The functions of a script, nested ones too, in the order of their heads. -/
def functions (text : Text) : Except AuditError (List Function) :=
  (Catalog.functionHeader.matchesIn text).mapM fun header =>
    Function.ofHeader header
      (if (header.group? 1).isSome then header.groupText 1 else header.groupText 2)

/-- The functions whose name begins with an upper-case letter. -/
def constructors (text : Text) : Except AuditError (List Function) := do
  return (← functions text).filter (·.isConstructor)

/-- Of the functions around a byte offset, the one that begins last. -/
def enclosing (fs : List Function) (offset : Nat) : Option Function :=
  (fs.filter (·.contains offset)).foldl
    (fun best f =>
      match best with
      | none => some f
      | some b => if b.start ≤ f.start then some f else some b)
    none

/-! ### Routes -/

/-- The registration of a route: verb and name, where it begins, where its
arguments end, and the arguments with their brackets. -/
structure Endpoint where
  verb : Text
  name : Text
  start : Nat
  stop : Nat
  body : Text
  deriving DecidableEq

/-- The routes that a script registers. -/
def endpoints (text : Text) : Except AuditError (List Endpoint) :=
  (Catalog.routeRegistration.matchesIn text).mapM fun m => do
    let bracket := match m.group? 1 with
      | some (_, verbEnd) => verbEnd
      | none => m.stop
    let stop ← closeScope bracket
    return ⟨m.groupText 1, m.groupText 2, m.start.offset, stop.offset, bracket.upTo stop⟩

end CartridgeAudit.Script
