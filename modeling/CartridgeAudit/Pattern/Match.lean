/-
CartridgeAudit/Pattern/Match.lean

Matching, leftmost and by preference.

The match at a place is the first outcome there.  The match in a text is the
one at the leftmost place that has any.  All matches are found from left to
right without overlap, where an empty match directly behind the previous one
does not count.

The matches at all places are worked out in one table (`Regex.matchTable`), of
which `matchTable_eq` says that it has the match at every place.
-/
import CartridgeAudit.Pattern.Table

namespace CartridgeAudit.Pattern

/-! ### Matches -/

/-- A match: where it begins and ends, and what it captured. -/
structure Match where
  start : Cursor
  stop : Cursor
  groups : Groups
  deriving DecidableEq

namespace Match

/-- The matched text. -/
def text (m : Match) : Text := m.start.upTo m.stop

/-- The number of characters matched. -/
def length (m : Match) : Nat := m.start.distance m.stop

/-- Where a numbered capture begins and ends. -/
def group? (m : Match) (i : Nat) : Option (Cursor × Cursor) := m.groups.lookup i

/-- The text of a numbered capture; empty if it took no part. -/
def groupText (m : Match) (i : Nat) : Text :=
  match m.group? i with
  | some (a, b) => a.upTo b
  | none => []

end Match

namespace Regex

/-! ### The match at a place -/

/-- The preferred match that begins at a place. -/
def matchAt (r : Regex) (p : Cursor) : Option Match :=
  (r.outcomes p).head?.map fun o => ⟨p, o.stop, o.groups⟩

/-- The preferred match at every place of a text. -/
def matchTable (r : Regex) (t : Text) : List (Option Match) :=
  let ps := places [] t
  List.zipWith (fun p x => x.map fun y => ⟨p, y.1, y.2⟩) ps
    (r.tabulate ps (ps.map fun p => some (p, [])))

theorem firstWith_some (r : Regex) (p : Cursor) :
    r.firstWith (fun q => some (q, [])) p =
      (r.outcomes p).head?.map fun o => (o.stop, o.groups) := by
  rw [firstWith]
  cases r.outcomes p <;> simp [withGroups]

/-- The table has the match at every place. -/
theorem matchTable_eq (r : Regex) (t : Text) :
    r.matchTable t = (places [] t).map r.matchAt := by
  rw [matchTable, tabulate_places, zipWith_map_self]
  refine List.map_congr_left fun p _ => ?_
  rw [firstWith_some, matchAt, Option.map_map]
  rfl

/-! ### Matches in a text -/

/-- The leftmost match in a text. -/
def find? (r : Regex) (t : Text) : Option Match := (r.matchTable t).findSome? id

theorem find?_eq (r : Regex) (t : Text) : r.find? t = (places [] t).findSome? r.matchAt := by
  rw [find?, matchTable_eq, List.findSome?_map]
  rfl

/-- Whether an expression matches somewhere in a text. -/
def isMatch (r : Regex) (t : Text) : Bool := (r.find? t).isSome

/-- Picks matches from those at all places. The next `skip` places belong to the
previous match; if none are left and `glued` holds, that match ended here. -/
def pick : Nat → Bool → List (Option Match) → List Match
  | _, _, [] => []
  | skip + 1, glued, _ :: rest => pick skip glued rest
  | 0, _, none :: rest => pick 0 false rest
  | 0, glued, some m :: rest =>
      match m.length with
      | 0 => if glued then pick 0 false rest else m :: pick 0 false rest
      | n + 1 => m :: pick n true rest

/-- All matches in a text, from left to right and without overlap. -/
def matchesIn (r : Regex) (t : Text) : List Match := pick 0 false (r.matchTable t)

theorem matchesIn_eq (r : Regex) (t : Text) :
    r.matchesIn t = pick 0 false ((places [] t).map r.matchAt) := by
  rw [matchesIn, matchTable_eq]

end Regex

end CartridgeAudit.Pattern
