/-
CartridgeAudit/Project/Glob.lean

Name patterns.

`?` stands for one character, `*` for any number of them, `[abc]` and `[a-z]`
for one of a set, `[!abc]` for one outside it, and `**` for any number of whole
path components.  A bracket has to be closed, and `**` has to be a component
of its own; three stars in a row are refused.

`covers` says what a pattern matches, by recursion on its parts.  Each star
doubles the work there, so patterns are run by `isMatch`, which finds out for
all ends of a text at once whether the pattern matches them, from its last part
to its first (`coverage`).  `isMatch_eq_covers` says that both agree.
-/
import CartridgeAudit.Text.Cursor

namespace CartridgeAudit.Glob

/-- A member of a bracket. -/
inductive Member
  | one (c : Char)
  | range (lo hi : Char)
  deriving DecidableEq

/-- Whether a member covers a character. -/
def Member.covers : Member → Char → Bool
  | .one c, d => c == d
  | .range lo hi, d => lo ≤ d && d ≤ hi

/-- A part of a pattern. -/
inductive Token
  | char (c : Char)
  | anyChar
  | anySequence
  | anyComponents
  | within (members : List Member)
  | except (members : List Member)
  deriving DecidableEq

/-- Why a text is no pattern. -/
inductive Fault
  | unclosedBracket
  | starsNotAlone
  | tooManyStars
  deriving DecidableEq

/-- The wording of a fault. -/
def Fault.message : Fault → String
  | .unclosedBracket => "a bracket is not closed"
  | .starsNotAlone => "two stars must form a single path component"
  | .tooManyStars => "stars are either regular or recursive"

/-! ### Reading -/

/-- The members of a bracket. -/
def members : Text → List Member
  | lo :: '-' :: hi :: rest => .range lo hi :: members rest
  | c :: rest => .one c :: members rest
  | [] => []

/-- What stands before and behind the first closing bracket; a bracket in the
first place is a member. -/
def untilBracket : Text → Option (Text × Text)
  | [] => none
  | first :: rest =>
      match rest.span (· != ']') with
      | (inner, _ :: after) => some (first :: inner, after)
      | (_, []) => none

/-- The tokens of a pattern. `behind` is the character before, if there is one;
the fuel bounds the number of tokens. -/
def tokens : Nat → Option Char → Text → Except Fault (List Token)
  | 0, _, _ => .ok []
  | _, _, [] => .ok []
  | fuel + 1, _, '?' :: rest => do return .anyChar :: (← tokens fuel (some '?') rest)
  | _ + 1, _, '*' :: '*' :: '*' :: _ => .error .tooManyStars
  | fuel + 1, behind, '*' :: '*' :: rest =>
      if behind.isNone || behind == some '/' then
        match rest with
        | [] => .ok [.anyComponents]
        | '/' :: rest => do return .anyComponents :: (← tokens fuel (some '/') rest)
        | _ => .error .starsNotAlone
      else .error .starsNotAlone
  | fuel + 1, _, '*' :: rest => do return .anySequence :: (← tokens fuel (some '*') rest)
  | fuel + 1, _, '[' :: '!' :: rest =>
      match untilBracket rest with
      | some (inner, after) => do return .except (members inner) :: (← tokens fuel (some ']') after)
      | none => .error .unclosedBracket
  | fuel + 1, _, '[' :: rest =>
      match untilBracket rest with
      | some (inner, after) => do return .within (members inner) :: (← tokens fuel (some ']') after)
      | none => .error .unclosedBracket
  | fuel + 1, _, c :: rest => do return .char c :: (← tokens fuel (some c) rest)

/-- The pattern that a text denotes. -/
def parse (pattern : String) : Except Fault (List Token) :=
  tokens (pattern.toList.length + 1) none pattern.toList

/-! ### Matching -/

/-- The places where a component may begin: here, and behind every slash. -/
def componentStarts : Text → List Text
  | [] => []
  | c :: cs => if c = '/' then cs :: componentStarts cs else componentStarts cs

/-- The ends of a text, from the whole text to the empty one. -/
def ends : Text → List Text
  | [] => [[]]
  | c :: cs => (c :: cs) :: ends cs

/-- Whether a pattern matches a whole text. -/
def covers : List Token → Text → Bool
  | [], t => t.isEmpty
  | .anySequence :: ts, t => (ends t).any (covers ts)
  | .anyComponents :: ts, t => (t :: componentStarts t ++ [[]]).any (covers ts)
  | _ :: _, [] => false
  | .char c :: ts, d :: cs => c == d && covers ts cs
  | .anyChar :: ts, _ :: cs => covers ts cs
  | .within ms :: ts, d :: cs => ms.any (·.covers d) && covers ts cs
  | .except ms :: ts, d :: cs => !ms.any (·.covers d) && covers ts cs

/-! ### Matching all ends at once -/

/-- The answers for a part that stands for one character, from those for the
parts behind it. Answers are listed from the whole text to its empty end. -/
def oneRow (test : Char → Bool) : Text → List Bool → List Bool
  | [], _ => [false]
  | c :: cs, row => (test c && row.tail.headD false) :: oneRow test cs row.tail

/-- Answers with one more in front, which is also positive if the next is. -/
def orNext (b : Bool) (row : List Bool) : List Bool := (b || row.headD false) :: row

/-- The answers for any sequence of characters, from those for the parts behind
it. -/
def sequenceRow : List Bool → List Bool
  | [] => []
  | b :: row => orNext b (sequenceRow row)

/-- Whether the parts behind match at a later component or at the end. -/
def laterRow : Text → List Bool → List Bool
  | [], row => [row.headD false]
  | c :: cs, row => orNext (c == '/' && row.tail.headD false) (laterRow cs row.tail)

/-- Which ends of a text a pattern matches. -/
def coverage (t : Text) : List Token → List Bool
  | [] => (ends t).map List.isEmpty
  | .anySequence :: ts => sequenceRow (coverage t ts)
  | .anyComponents :: ts =>
      let row := coverage t ts
      List.zipWith or row (laterRow t row)
  | .char c :: ts => oneRow (c == ·) t (coverage t ts)
  | .anyChar :: ts => oneRow (fun _ => true) t (coverage t ts)
  | .within ms :: ts => oneRow (fun d => ms.any (·.covers d)) t (coverage t ts)
  | .except ms :: ts => oneRow (fun d => !ms.any (·.covers d)) t (coverage t ts)

/-- Whether a pattern matches a whole text. -/
def isMatch (ts : List Token) (t : Text) : Bool := (coverage t ts).headD false

@[simp] theorem head?_ends (t : Text) : (ends t).head? = some t := by cases t <;> rfl

theorem oneRow_map_ends (test : Char → Bool) (f : Text → Bool) (t : Text) :
    oneRow test t ((ends t).map f) =
      (ends t).map fun s => match s with
        | [] => false
        | d :: cs => test d && f cs := by
  induction t with
  | nil => rfl
  | cons c cs ih => simp [oneRow, ends, ih]

theorem sequenceRow_map_ends (f : Text → Bool) (t : Text) :
    sequenceRow ((ends t).map f) = (ends t).map fun s => (ends s).any f := by
  induction t with
  | nil => simp [sequenceRow, orNext, ends]
  | cons c cs ih => simp [sequenceRow, orNext, ends, ih]

theorem laterRow_map_ends (f : Text → Bool) (t : Text) :
    laterRow t ((ends t).map f) = (ends t).map fun s => (componentStarts s ++ [[]]).any f := by
  induction t with
  | nil => simp [laterRow, ends, componentStarts]
  | cons c cs ih =>
      by_cases h : c = '/' <;> simp [laterRow, orNext, ends, ih, componentStarts, h, Bool.or_assoc]

theorem zipWith_or_map (f g : α → Bool) (xs : List α) :
    List.zipWith or (xs.map f) (xs.map g) = xs.map fun x => f x || g x := by
  induction xs with
  | nil => rfl
  | cons x xs ih => simp [ih]

theorem coverage_eq (ts : List Token) (t : Text) : coverage t ts = (ends t).map (covers ts) := by
  induction ts with
  | nil => exact List.map_congr_left fun s _ => by simp [covers]
  | cons token ts ih =>
      cases token with
      | anySequence =>
          rw [coverage, ih, sequenceRow_map_ends]
          exact List.map_congr_left fun s _ => by simp [covers]
      | anyComponents =>
          rw [coverage, ih, laterRow_map_ends, zipWith_or_map]
          exact List.map_congr_left fun s _ => by simp [covers]
      | char | anyChar | within | except =>
          rw [coverage, ih, oneRow_map_ends]
          exact List.map_congr_left fun s _ => by cases s <;> simp [covers]

/-- Both ways to match agree. -/
theorem isMatch_eq_covers (ts : List Token) (t : Text) : isMatch ts t = covers ts t := by
  simp [isMatch, coverage_eq]

end CartridgeAudit.Glob
