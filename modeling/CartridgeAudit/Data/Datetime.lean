/-
CartridgeAudit/Data/Datetime.lean

Dates and times of day, read and written.

A `Datetime` is a date, a time of day, or both; only one that has both may also
say how far it is from universal time.  It has one written form
(`Datetime.text`), and several texts are read as the same one: the letter
between date and time may be small or a space, and digits of a second beyond
the ninth are dropped.

Two readers share the grammar.  `Datetime.read?` takes the longest beginning of
a text, as documents need it, and wants a clock time as the distance from
universal time.  `Datetime.ofText?` takes a whole text, and there the distance
is any number of hours and minutes up to a full day.
-/
import CartridgeAudit.Text.Number
import CartridgeAudit.Text.Search

namespace CartridgeAudit

namespace Datetime

/-- A day of the calendar. -/
structure Date where
  year : Nat
  month : Nat
  day : Nat
  deriving DecidableEq

/-- A time of day. -/
structure Time where
  hour : Nat
  minute : Nat
  second : Nat
  nanosecond : Nat
  deriving DecidableEq

/-- The distance from universal time. -/
inductive Offset
  /-- universal time itself -/
  | universal
  /-- so many minutes, to the east if positive -/
  | minutes (n : Int)
  deriving DecidableEq

end Datetime

/-- A date, a time of day, or both. -/
structure Datetime where
  date : Option Datetime.Date
  time : Option Datetime.Time
  offset : Option Datetime.Offset
  deriving DecidableEq

namespace Datetime

/-! ### Reading -/

/-- Exactly so many digits: their value. -/
def fixed? (n : Nat) (t : Text) : Option (Nat × Text) := do
  if (t.take n).length ≠ n then none
  return (← Text.digitsFrom 0 (t.take n), t.drop n)

/-- The number of days of a month. -/
def daysIn (year month : Nat) : Nat :=
  if month = 2 then
    if year % 4 = 0 ∧ (year % 100 ≠ 0 ∨ year % 400 = 0) then 29 else 28
  else if month = 4 ∨ month = 6 ∨ month = 9 ∨ month = 11 then 30
  else 31

/-- A date. -/
def date? (t : Text) : Option (Date × Text) := do
  let (year, t) ← fixed? 4 t
  let (month, t) ← fixed? 2 (← Text.char? '-' t)
  let (day, t) ← fixed? 2 (← Text.char? '-' t)
  if 1 ≤ month ∧ month ≤ 12 ∧ 1 ≤ day ∧ day ≤ daysIn year month then
    return (⟨year, month, day⟩, t)
  else none

/-- Two numbers of two digits with a colon between them. -/
def pair? (t : Text) : Option (Nat × Nat × Text) := do
  let (first, t) ← fixed? 2 t
  let (second, t) ← fixed? 2 (← Text.char? ':' t)
  return (first, second, t)

/-- The nanoseconds that the digits behind a point stand for. -/
def nanoseconds (digits : Text) : Nat :=
  let kept := digits.take 9
  (Text.digitsFrom 0 kept).getD 0 * Nat.pow 10 (9 - kept.length)

/-- A time of day, with a fraction of a second or without. A minute may have a
sixty-first second. -/
def time? (t : Text) : Option (Time × Text) := do
  let (hour, minute, t) ← pair? t
  let (second, t) ← fixed? 2 (← Text.char? ':' t)
  if 23 < hour ∨ 59 < minute ∨ 60 < second then none
  match t with
  | '.' :: rest =>
      let digits := rest.takeWhile Char.isDigit
      if digits.isEmpty then none
      else return (⟨hour, minute, second, nanoseconds digits⟩, rest.dropWhile Char.isDigit)
  | t => return (⟨hour, minute, second, 0⟩, t)

/-- A distance from universal time, of which `fits` says which hours and
minutes it may have. -/
def offset? (fits : Nat → Nat → Bool) : Text → Option (Offset × Text)
  | c :: rest =>
      if c = 'Z' ∨ c = 'z' then some (.universal, rest)
      else if c = '+' ∨ c = '-' then do
        let (hours, minutes, rest) ← pair? rest
        if !fits hours minutes then none
        let n : Int := 60 * hours + minutes
        return (.minutes (if c = '-' then -n else n), rest)
      else none
  | [] => none

/-- The longest date and time at the front of a text. -/
def readWith? (fits : Nat → Nat → Bool) (t : Text) : Option (Datetime × Text) :=
  match date? t with
  | none => (time? t).map fun (time, rest) => (⟨none, some time, none⟩, rest)
  | some (date, rest) =>
      match rest with
      | c :: more =>
          if c = 'T' ∨ c = 't' ∨ c = ' ' then
            match time? more with
            | some (time, after) =>
                match offset? fits after with
                | some (offset, last) => some (⟨some date, some time, some offset⟩, last)
                | none => some (⟨some date, some time, none⟩, after)
            | none => some (⟨some date, none, none⟩, rest)
          else some (⟨some date, none, none⟩, rest)
      | [] => some (⟨some date, none, none⟩, [])

/-- The date and time at the front of a text, with a clock time as the distance
from universal time. -/
def read? (t : Text) : Option (Datetime × Text) :=
  readWith? (fun hours minutes => hours ≤ 23 && minutes ≤ 59) t

/-- The date and time that a whole text denotes, at most a day away from
universal time. -/
def ofText? (t : Text) : Option Datetime :=
  match readWith? (fun hours minutes => 60 * hours + minutes ≤ 24 * 60) t with
  | some (d, []) => some d
  | _ => none

/-! ### Writing -/

/-- A number with zeros in front up to a width. -/
def padded (width n : Nat) : Text :=
  let digits := Nat.toDigits 10 n
  List.replicate (width - digits.length) '0' ++ digits

/-- A date, as year, month and day. -/
def Date.text (d : Date) : Text :=
  padded 4 d.year ++ '-' :: padded 2 d.month ++ '-' :: padded 2 d.day

/-- The fraction of a second behind its point, without zeros at the end. -/
def fractionText (nanosecond : Nat) : Text :=
  if nanosecond = 0 then []
  else '.' :: ((padded 9 nanosecond).reverse.dropWhile (· == '0')).reverse

/-- A time of day. -/
def Time.text (t : Time) : Text :=
  padded 2 t.hour ++ ':' :: padded 2 t.minute ++ ':' :: padded 2 t.second ++
    fractionText t.nanosecond

/-- A distance from universal time. -/
def Offset.text : Offset → Text
  | .universal => ['Z']
  | .minutes n =>
      (if n < 0 then '-' else '+') :: padded 2 (n.natAbs / 60) ++ ':' :: padded 2 (n.natAbs % 60)

/-- The written form. -/
def text (d : Datetime) : Text :=
  let date := (d.date.map Date.text).getD []
  let time := (d.time.map Time.text).getD []
  let between := if d.date.isSome && d.time.isSome then ['T'] else []
  date ++ between ++ time ++ (d.offset.map Offset.text).getD []

end Datetime

end CartridgeAudit
