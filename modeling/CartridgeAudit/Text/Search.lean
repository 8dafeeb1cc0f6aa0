/-
CartridgeAudit/Text/Search.lean

Finding and cutting: the first occurrence of a text in another, splitting at
characters, and replacing every occurrence.  All of it is plain recursion on
the text that is searched.
-/
import CartridgeAudit.Text.Cursor

namespace CartridgeAudit.Text

/-- What follows a given character at the front of a text. -/
def char? (x : Char) : Text → Option Text
  | c :: rest => if c = x then some rest else none
  | [] => none

/-! ### Occurrences -/

/-- The first place at or after `before | after` where `needle` begins. -/
def findFrom (needle : Text) : Text → Text → Option Cursor
  | before, [] => if needle.isEmpty then some ⟨before, []⟩ else none
  | before, c :: cs =>
      if needle.isPrefixOf (c :: cs) then some ⟨before, c :: cs⟩
      else findFrom needle (c :: before) cs

/-- The first place in a text where `needle` begins. -/
def find? (needle t : Text) : Option Cursor := findFrom needle [] t

/-- Whether `needle` occurs in a text. -/
def contains (t needle : Text) : Bool := (find? needle t).isSome

/-- The places where `needle` begins, from left to right and without overlap;
`skip` characters are passed over first. -/
def occurrencesFrom (needle : Text) : Nat → Text → Text → List Cursor
  | _ + 1, _, [] => []
  | skip + 1, before, c :: cs => occurrencesFrom needle skip (c :: before) cs
  | 0, before, [] => if needle.isEmpty then [⟨before, []⟩] else []
  | 0, before, c :: cs =>
      if needle.isPrefixOf (c :: cs) then
        ⟨before, c :: cs⟩ :: occurrencesFrom needle (needle.length - 1) (c :: before) cs
      else occurrencesFrom needle 0 (c :: before) cs

/-- The places where `needle` begins in a text, from left to right and without
overlap. An empty needle begins at every boundary. -/
def occurrences (needle t : Text) : List Cursor := occurrencesFrom needle 0 [] t

/-- Replaces the occurrences of `needle`, from left to right and without
overlap; `skip` characters of a replaced occurrence are still to be dropped. -/
def replaceFrom (needle replacement : Text) : Nat → Text → Text
  | _, [] => []
  | skip + 1, _ :: cs => replaceFrom needle replacement skip cs
  | 0, c :: cs =>
      if needle.isPrefixOf (c :: cs) then
        replacement ++ replaceFrom needle replacement (needle.length - 1) cs
      else c :: replaceFrom needle replacement 0 cs

/-- Replaces every occurrence of a non-empty `needle`. -/
def replaceAll (needle replacement t : Text) : Text := replaceFrom needle replacement 0 t

/-- Whether a text ends with `s`. -/
def endsWith (t s : Text) : Bool := s.reverse.isPrefixOf t.reverse

/-! ### Splitting -/

/-- The pieces of a text between the characters that satisfy `p`; there is
always one more piece than such characters. -/
def splitOn (p : Char → Bool) : Text → List Text
  | [] => [[]]
  | c :: cs =>
      if p c then [] :: splitOn p cs
      else match splitOn p cs with
        | [] => [[c]]
        | piece :: rest => (c :: piece) :: rest

/-- The pieces of a text between the occurrences of `needle`; `skip` characters
of an occurrence are still to be dropped. -/
def splitBy (needle : Text) : Nat → Text → List Text
  | _, [] => [[]]
  | skip + 1, _ :: cs => splitBy needle skip cs
  | 0, c :: cs =>
      if needle.isPrefixOf (c :: cs) then [] :: splitBy needle (needle.length - 1) cs
      else match splitBy needle 0 cs with
        | [] => [[c]]
        | piece :: rest => (c :: piece) :: rest

/-- Puts `separator` between the pieces. -/
def join (separator : Text) : List Text → Text
  | [] => []
  | [t] => t
  | t :: ts => t ++ separator ++ join separator ts

/-- What stands before and after the first occurrence of a character. -/
def cutAt (x : Char) : Text → Option (Text × Text)
  | [] => none
  | c :: cs => if c = x then some ([], cs) else (cutAt x cs).map fun (a, b) => (c :: a, b)

end CartridgeAudit.Text
