/-
CartridgeAudit/Project/Manifest.lean

The manifest of a project: a JSON object of which the name, the version and the
paths are read.  Each of them may be missing or null, and must not be given
twice.  Other members are passed over.  The members may also be given as a
list.
-/
import CartridgeAudit.Data.Json.Reader
import CartridgeAudit.Project.Tree

namespace CartridgeAudit

/-- What a manifest says. -/
structure Manifest where
  name : Option String
  version : Option String
  paths : Option (List (String × String))
  deriving DecidableEq

namespace Manifest

/-- The members that are read. -/
def keys : List String := ["name", "version", "paths"]

/-- A string or null. -/
def string? : Json → Option (Option String)
  | .null => some none
  | .string s => some (some s)
  | _ => none

/-- Strings by name, or null; of two with one name the later counts. -/
def strings? : Json → Option (Option (List (String × String)))
  | .null => some none
  | .object ms => do
      let pairs ← ms.mapM fun
        | (k, .string s) => some (k, s)
        | _ => none
      return some (pairs.foldl (fun acc p => acc.filter (·.1 != p.1) ++ [p]) [])
  | _ => none

/-- The members of an object that has some, up to its closing brace. Members
that are read have to denote texts. -/
def members? : Nat → Text → Option (List (String × Json) × Text)
  | 0, _ => none
  | fuel + 1, t =>
      match Json.skipBlanks t with
      | '"' :: rest => do
          let (key, rest) ← Json.stringBody? true rest
          let key := String.ofList key
          match Json.skipBlanks rest with
          | ':' :: rest => do
              let (x, rest) ← Json.value? (keys.contains key) (Json.enough rest) rest
              match Json.skipBlanks rest with
              | ',' :: rest => do
                  let (ms, rest) ← members? fuel rest
                  return ((key, x) :: ms, rest)
              | '\x7d' :: rest => return ([(key, x)], rest)
              | _ => none
          | _ => none
      | _ => none

/-- The members of a manifest and the rest of the text. -/
def object? (t : Text) : Option (List (String × Json) × Text) :=
  match Json.skipBlanks t with
  | '\x7b' :: rest =>
      match Json.skipBlanks rest with
      | '\x7d' :: rest => some ([], rest)
      | rest => members? (rest.length + 1) rest
  | '[' :: _ => do
      match ← Json.value? true (Json.enough t) t with
      | (.array items, rest) => if items.length ≤ 3 then some (keys.zip items, rest) else none
      | _ => none
  | _ => none

/-- The manifest that a text denotes. -/
def parse? (t : Text) : Option Manifest := do
  let (ms, rest) ← object? t
  if !(Json.skipBlanks rest).isEmpty then none
  let once (key : String) : Bool := (ms.filter (·.1 == key)).length ≤ 1
  if !keys.all once then none
  let memberOf (key : String) : Json := (ms.lookup key).getD .null
  return ⟨← string? (memberOf "name"), ← string? (memberOf "version"),
    ← strings? (memberOf "paths")⟩

/-- The manifest in a file. -/
def read (d : Disk) (p : Path) : Except AuditError Manifest :=
  match d.readText p with
  | .error e => .error (.io e)
  | .ok t =>
      match parse? t with
      | some m => .ok m
      | none => .error (.json p.text "not a manifest")

end Manifest

end CartridgeAudit
