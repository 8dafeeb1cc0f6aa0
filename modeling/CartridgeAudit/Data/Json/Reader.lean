/-
CartridgeAudit/Data/Json/Reader.lean

Reading JSON.

The grammar is the strict one: no comments, no trailing commas, no control
characters in strings.  A string may hold an escaped half of a surrogate pair
without its partner; such a string denotes no text.  Where a text is needed it
is refused (`strict`), and where a value is only passed over it is not.

Every reader takes a text and returns what it read with the rest.  Readers of
nested values carry fuel; the length of the text is always enough.
-/
import CartridgeAudit.Data.Json
import CartridgeAudit.Text.Cursor

namespace CartridgeAudit.Json

/-- Drops the blanks that may stand between tokens. -/
def skipBlanks (t : Text) : Text :=
  t.dropWhile fun c => c == ' ' || c == '\n' || c == '\t' || c == '\r'

/-- The value of a hexadecimal digit. -/
def hexDigit? (c : Char) : Option Nat :=
  if c.isDigit then some (c.toNat - '0'.toNat)
  else if 'a' ≤ c ∧ c ≤ 'f' then some (c.toNat - 'a'.toNat + 10)
  else if 'A' ≤ c ∧ c ≤ 'F' then some (c.toNat - 'A'.toNat + 10)
  else none

/-- The value of a row of hexadecimal digits. -/
def hexValue? (digits : List Char) : Option Nat :=
  digits.foldlM (fun n c => (hexDigit? c).map (16 * n + ·)) 0

/-- The character that a letter behind a backslash stands for. -/
def simpleEscape? : Char → Option Char
  | '"' => some '"'
  | '\\' => some '\\'
  | '/' => some '/'
  | 'b' => some '\x08'
  | 'f' => some '\x0c'
  | 'n' => some '\n'
  | 'r' => some '\r'
  | 't' => some '\t'
  | _ => none

/-- The first half of a surrogate pair. -/
def isHighHalf (n : Nat) : Bool := 0xd800 ≤ n && n < 0xdc00

/-- The second half of a surrogate pair. -/
def isLowHalf (n : Nat) : Bool := 0xdc00 ≤ n && n < 0xe000

/-- The character of an escaped code point that is no half. -/
def lone? (strict : Bool) (n : Nat) : Option Char :=
  if isHighHalf n || isLowHalf n then if strict then none else some '\ufffd'
  else some (Char.ofNat n)

/-- A string behind its opening quote. -/
def stringBody? (strict : Bool) : Text → Option (Text × Text)
  | [] => none
  | '"' :: rest => some ([], rest)
  | '\\' :: 'u' :: a :: b :: c :: d :: '\\' :: 'u' :: e :: f :: g :: h :: rest => do
      let high ← hexValue? [a, b, c, d]
      let low ← hexValue? [e, f, g, h]
      if isHighHalf high && isLowHalf low then
        let (s, r) ← stringBody? strict rest
        return (Char.ofNat (0x10000 + (high - 0xd800) * 0x400 + (low - 0xdc00)) :: s, r)
      else
        let x ← lone? strict high
        let (s, r) ← stringBody? strict ('\\' :: 'u' :: e :: f :: g :: h :: rest)
        return (x :: s, r)
  | '\\' :: 'u' :: a :: b :: c :: d :: rest => do
      let x ← lone? strict (← hexValue? [a, b, c, d])
      let (s, r) ← stringBody? strict rest
      return (x :: s, r)
  | '\\' :: c :: rest => do
      let x ← simpleEscape? c
      let (s, r) ← stringBody? strict rest
      return (x :: s, r)
  | c :: rest =>
      if c.toNat < 0x20 || c == '\\' then none
      else (stringBody? strict rest).map fun (s, r) => (c :: s, r)

/-- A number: its text and the rest. -/
def number? (t : Text) : Option (Text × Text) := do
  let (sign, t) := match t with
    | '-' :: rest => (['-'], rest)
    | _ => ([], t)
  let whole := t.takeWhile Char.isDigit
  let t := t.dropWhile Char.isDigit
  if whole.isEmpty || (1 < whole.length && whole.head? == some '0') then none
  let (fraction, t) ← match t with
    | '.' :: rest =>
        let digits := rest.takeWhile Char.isDigit
        if digits.isEmpty then none else some ('.' :: digits, rest.dropWhile Char.isDigit)
    | _ => some ([], t)
  let (power, t) ← match t with
    | e :: rest =>
        if e == 'e' || e == 'E' then
          let (s, rest) := match rest with
            | '+' :: more => (['+'], more)
            | '-' :: more => (['-'], more)
            | _ => ([], rest)
          let digits := rest.takeWhile Char.isDigit
          if digits.isEmpty then none else some (e :: s ++ digits, rest.dropWhile Char.isDigit)
        else some ([], e :: rest)
    | [] => some ([], [])
  return (sign ++ whole ++ fraction ++ power, t)

mutual

/-- A value. -/
def value? (strict : Bool) : Nat → Text → Option (Json × Text)
  | 0, _ => none
  | fuel + 1, t =>
      match skipBlanks t with
      | 'n' :: 'u' :: 'l' :: 'l' :: rest => some (.null, rest)
      | 't' :: 'r' :: 'u' :: 'e' :: rest => some (.bool true, rest)
      | 'f' :: 'a' :: 'l' :: 's' :: 'e' :: rest => some (.bool false, rest)
      | '"' :: rest => (stringBody? strict rest).map fun (s, r) => (.string (String.ofList s), r)
      | '[' :: rest =>
          match skipBlanks rest with
          | ']' :: rest => some (.array [], rest)
          | rest => (elements? strict fuel rest).map fun (xs, r) => (.array xs, r)
      | '\x7b' :: rest =>
          match skipBlanks rest with
          | '\x7d' :: rest => some (.object [], rest)
          | rest => (members? strict fuel rest).map fun (ms, r) => (.object ms, r)
      | rest => (number? rest).map fun (n, r) => (.number (String.ofList n), r)

/-- The elements of an array that has some, up to its closing bracket. -/
def elements? (strict : Bool) : Nat → Text → Option (List Json × Text)
  | 0, _ => none
  | fuel + 1, t => do
      let (x, rest) ← value? strict fuel t
      match skipBlanks rest with
      | ',' :: rest => do
          let (xs, rest) ← elements? strict fuel rest
          return (x :: xs, rest)
      | ']' :: rest => return ([x], rest)
      | _ => none

/-- The members of an object that has some, up to its closing brace. -/
def members? (strict : Bool) : Nat → Text → Option (List (String × Json) × Text)
  | 0, _ => none
  | fuel + 1, t =>
      match skipBlanks t with
      | '"' :: rest => do
          let (name, rest) ← stringBody? strict rest
          match skipBlanks rest with
          | ':' :: rest => do
              let (x, rest) ← value? strict fuel rest
              match skipBlanks rest with
              | ',' :: rest => do
                  let (ms, rest) ← members? strict fuel rest
                  return ((String.ofList name, x) :: ms, rest)
              | '\x7d' :: rest => return ([(String.ofList name, x)], rest)
              | _ => none
          | _ => none
      | _ => none

end

/-- Fuel that is enough for any value in a text: each round of a reader passes
a character or goes one level deeper. -/
def enough (t : Text) : Nat := 2 * t.length + 2

end CartridgeAudit.Json
