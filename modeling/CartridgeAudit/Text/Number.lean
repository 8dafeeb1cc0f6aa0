/-
CartridgeAudit/Text/Number.lean

Numbers written in decimal digits.
-/
import CartridgeAudit.Text.Cursor

namespace CartridgeAudit.Text

/-- The value of decimal digits, the highest first; other characters are
refused. -/
def digitsFrom : Nat → Text → Option Nat
  | value, [] => some value
  | value, c :: cs =>
      if '0' ≤ c && c ≤ '9' then digitsFrom (10 * value + (c.toNat - '0'.toNat)) cs else none

/-- The value of one or more decimal digits. -/
def digits? : Text → Option Nat
  | [] => none
  | c :: cs => digitsFrom 0 (c :: cs)

/-- The number of values of a word of 32 bits. -/
def wordLimit : Nat := UInt32.size

/-- The value of one or more decimal digits behind an optional plus sign, if it
fits a word of 32 bits. -/
def word? (t : Text) : Option Nat :=
  let digits := match t with
    | '+' :: rest => rest
    | _ => t
  (digits? digits).filter (· < wordLimit)

end CartridgeAudit.Text
