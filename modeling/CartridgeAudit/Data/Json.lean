/-
CartridgeAudit/Data/Json.lean

JSON values and their indented form: two spaces per level, one member or
element a line, and nothing between the brackets of an empty container.
-/

namespace CartridgeAudit

/-- A JSON value. Numbers that are not integers keep their text. -/
inductive Json
  | null
  | bool (b : Bool)
  | number (text : String)
  | string (s : String)
  | array (items : List Json)
  | object (members : List (String × Json))

namespace Json

/-- A natural number. -/
def nat (n : Nat) : Json := .number (toString n)

/-- The value of a member; of members with the same name the first counts. -/
def get? : Json → String → Option Json
  | .object members, name => members.lookup name
  | _, _ => none

/-! ### Writing -/

/-- Four hexadecimal digits. -/
def hex4 (n : Nat) : List Char :=
  let digits := Nat.toDigits 16 n
  List.replicate (4 - digits.length) '0' ++ digits

/-- A character inside a string: quotes, backslashes and control characters are
escaped. -/
def escapeChar (c : Char) : List Char :=
  if c = '"' then ['\\', '"']
  else if c = '\\' then ['\\', '\\']
  else if c = '\n' then ['\\', 'n']
  else if c = '\r' then ['\\', 'r']
  else if c = '\t' then ['\\', 't']
  else if c = '\x08' then ['\\', 'b']
  else if c = '\x0c' then ['\\', 'f']
  else if c.toNat < 0x20 then '\\' :: 'u' :: hex4 c.toNat
  else [c]

/-- A string in quotes. -/
def quoted (s : String) : String :=
  String.ofList ('"' :: s.toList.flatMap escapeChar ++ ['"'])

/-- A new line at a level of indentation. -/
def newline (level : Nat) : String := "\n" ++ String.ofList (List.replicate (2 * level) ' ')

mutual

/-- The indented form of a value at a level. -/
def indented (level : Nat) : Json → String
  | .null => "null"
  | .bool b => if b then "true" else "false"
  | .number text => text
  | .string s => quoted s
  | .array [] => "[]"
  | .array (x :: xs) =>
      "[" ++ newline (level + 1) ++ indented (level + 1) x ++ indentedItems level xs
  | .object [] => "\x7b\x7d"
  | .object ((name, x) :: ms) =>
      "\x7b" ++ newline (level + 1) ++ quoted name ++ ": " ++ indented (level + 1) x ++
        indentedMembers level ms

/-- The further elements of an array and its closing bracket. -/
def indentedItems (level : Nat) : List Json → String
  | [] => newline level ++ "]"
  | x :: xs => "," ++ newline (level + 1) ++ indented (level + 1) x ++ indentedItems level xs

/-- The further members of an object and its closing brace. -/
def indentedMembers (level : Nat) : List (String × Json) → String
  | [] => newline level ++ "\x7d"
  | (name, x) :: ms =>
      "," ++ newline (level + 1) ++ quoted name ++ ": " ++ indented (level + 1) x ++
        indentedMembers level ms

end

/-- The indented form of a value. -/
def pretty (j : Json) : String := indented 0 j

end Json

end CartridgeAudit
