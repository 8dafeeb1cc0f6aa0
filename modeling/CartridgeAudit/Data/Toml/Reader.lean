/-
CartridgeAudit/Data/Toml/Reader.lean

Reading TOML.

The grammar is that of version 1.0 of the format; a byte order mark at the
front is passed over.  Every reader takes a text and returns what it read with
the rest, or nothing if the text does not begin that way.  Arrays and inline
tables may be nested up to `maxDepth` levels, a key has at most as many parts,
and integers have 64 bits.
-/
import CartridgeAudit.Data.Json.Reader
import CartridgeAudit.Data.Toml

namespace CartridgeAudit.Toml

/-- How deep values may be nested, and how many parts a key may have. -/
def maxDepth : Nat := 79

/-! ### Blanks, comments, line ends -/

/-- A space or a tab. -/
def isSpace (c : Char) : Bool := c == ' ' || c == '\t'

/-- Drops spaces and tabs. -/
def skipSpaces (t : Text) : Text := t.dropWhile isSpace

/-- A character that may stand in a line. -/
def isInLine (c : Char) : Bool := c == '\t' || (0x20 ≤ c.toNat && c.toNat != 0x7f)

/-- Drops a comment, if there is one. -/
def skipComment : Text → Text
  | '#' :: rest => rest.dropWhile isInLine
  | t => t

/-- A line end. -/
def newline? : Text → Option Text
  | '\n' :: rest => some rest
  | '\r' :: '\n' :: rest => some rest
  | _ => none

/-- The end of a statement: spaces, perhaps a comment, and a line end or the
end of the text. -/
def lineEnd? (t : Text) : Option Text :=
  match skipComment (skipSpaces t) with
  | [] => some []
  | rest => newline? rest

/-- Drops spaces, line ends and comments; `n` bounds the number of lines. -/
def skipLines : Nat → Text → Text
  | 0, t => t
  | n + 1, t =>
      match newline? (skipComment (skipSpaces t)) with
      | some rest => skipLines n rest
      | none => skipSpaces t

/-! ### Strings -/

/-- The character with a code point, if there is one. -/
def charOf? (n : Nat) : Option Char := if n.isValidChar then some (Char.ofNat n) else none

/-- The character that a letter behind a backslash stands for. -/
def simpleEscape? : Char → Option Char
  | '"' => some '"'
  | '\\' => some '\\'
  | 'b' => some '\x08'
  | 'f' => some '\x0c'
  | 'n' => some '\n'
  | 'r' => some '\r'
  | 't' => some '\t'
  | _ => none

/-- An escape behind its backslash. -/
def escape? : Text → Option (Char × Text)
  | 'u' :: a :: b :: c :: d :: rest => do
      return (← charOf? (← Json.hexValue? [a, b, c, d]), rest)
  | 'U' :: a :: b :: c :: d :: e :: f :: g :: h :: rest => do
      return (← charOf? (← Json.hexValue? [a, b, c, d, e, f, g, h]), rest)
  | c :: rest => (simpleEscape? c).map fun x => (x, rest)
  | [] => none

/-- A basic string behind its opening quote. The fuel bounds its length. -/
def basicBody : Nat → Text → Option (Text × Text)
  | 0, _ => none
  | _, [] => none
  | fuel + 1, c :: rest =>
      if c = '"' then some ([], rest)
      else if c = '\\' then do
        let (x, rest) ← escape? rest
        let (s, r) ← basicBody fuel rest
        return (x :: s, r)
      else if isInLine c then (basicBody fuel rest).map fun (s, r) => (c :: s, r)
      else none

/-- A literal string behind its opening quote. -/
def literalBody : Text → Option (Text × Text)
  | [] => none
  | c :: rest =>
      if c = '\'' then some ([], rest)
      else if isInLine c then (literalBody rest).map fun (s, r) => (c :: s, r)
      else none

/-- Whether only spaces stand before the next line end. -/
def endsLine (t : Text) : Bool := (newline? (skipSpaces t)).isSome

/-- Drops spaces and line ends; `n` bounds their number. -/
def skipFill : Nat → Text → Text
  | 0, t => t
  | n + 1, t =>
      match newline? (skipSpaces t) with
      | some rest => skipFill n rest
      | none => skipSpaces t

/-- A multi-line basic string behind its opening quotes. Up to two quotes may
stand right before the closing ones. A backslash at the end of a line joins
the lines. -/
def multilineBasicBody : Nat → Text → Option (Text × Text)
  | 0, _ => none
  | _, [] => none
  | _ + 1, '"' :: '"' :: '"' :: '"' :: '"' :: rest => some (['"', '"'], rest)
  | _ + 1, '"' :: '"' :: '"' :: '"' :: rest => some (['"'], rest)
  | _ + 1, '"' :: '"' :: '"' :: rest => some ([], rest)
  | fuel + 1, '\\' :: rest =>
      if endsLine rest then multilineBasicBody fuel (skipFill rest.length rest)
      else do
        let (x, rest) ← escape? rest
        let (s, r) ← multilineBasicBody fuel rest
        return (x :: s, r)
  | fuel + 1, c :: rest =>
      match newline? (c :: rest) with
      | some rest => (multilineBasicBody fuel rest).map fun (s, r) => ('\n' :: s, r)
      | none =>
          if isInLine c then (multilineBasicBody fuel rest).map fun (s, r) => (c :: s, r)
          else none

/-- A multi-line literal string behind its opening quotes. -/
def multilineLiteralBody : Nat → Text → Option (Text × Text)
  | 0, _ => none
  | _, [] => none
  | _ + 1, '\'' :: '\'' :: '\'' :: '\'' :: '\'' :: rest => some (['\'', '\''], rest)
  | _ + 1, '\'' :: '\'' :: '\'' :: '\'' :: rest => some (['\''], rest)
  | _ + 1, '\'' :: '\'' :: '\'' :: rest => some ([], rest)
  | fuel + 1, c :: rest =>
      match newline? (c :: rest) with
      | some rest => (multilineLiteralBody fuel rest).map fun (s, r) => ('\n' :: s, r)
      | none =>
          if isInLine c then (multilineLiteralBody fuel rest).map fun (s, r) => (c :: s, r)
          else none

/-- Drops a line end right behind opening quotes. -/
def dropFirstNewline (t : Text) : Text := (newline? t).getD t

/-- A string of any kind. -/
def string? : Text → Option (Text × Text)
  | '"' :: '"' :: '"' :: rest => multilineBasicBody (rest.length + 1) (dropFirstNewline rest)
  | '\'' :: '\'' :: '\'' :: rest => multilineLiteralBody (rest.length + 1) (dropFirstNewline rest)
  | '"' :: rest => basicBody (rest.length + 1) rest
  | '\'' :: rest => literalBody rest
  | _ => none

/-! ### Numbers -/

/-- Further digits, each after at most one underscore. -/
def moreDigits (p : Char → Bool) : Text → Option (List Char × Text)
  | [] => some ([], [])
  | '_' :: c :: rest =>
      if p c then (moreDigits p rest).map fun (ds, r) => (c :: ds, r) else none
  | c :: rest =>
      if c = '_' then none
      else if p c then (moreDigits p rest).map fun (ds, r) => (c :: ds, r)
      else some ([], c :: rest)

/-- One or more digits with single underscores between them. -/
def digits? (p : Char → Bool) : Text → Option (List Char × Text)
  | c :: rest => if p c then (moreDigits p rest).map fun (ds, r) => (c :: ds, r) else none
  | [] => none

/-- A sign, if there is one: whether it is a minus. -/
def sign : Text → Bool × Text
  | '-' :: rest => (true, rest)
  | '+' :: rest => (false, rest)
  | t => (false, t)

/-- The decimal digits of a whole number; a leading zero stands alone. -/
def whole? : Text → Option (List Char × Text)
  | '0' :: rest => some (['0'], rest)
  | t => digits? Char.isDigit t

/-- The value of decimal digits. -/
def decimal (ds : List Char) : Nat := ds.foldl (fun n c => 10 * n + (c.toNat - '0'.toNat)) 0

/-- An integer of 64 bits. -/
def fitting? (n : Int) : Option Int :=
  if Int64.minValue.toInt ≤ n ∧ n ≤ Int64.maxValue.toInt then some n else none

/-- An integer: hexadecimal, octal, binary or decimal. -/
def integer? (t : Text) : Option (Int × Text) :=
  let radix (base : Nat) (p : Char → Bool) (rest : Text) : Option (Int × Text) := do
    let (ds, rest) ← digits? p rest
    let n ← ds.foldlM (fun n c => (Json.hexDigit? c).map (base * n + ·)) 0
    return (← fitting? n, rest)
  match t with
  | '0' :: 'x' :: rest => radix 16 (fun c => (Json.hexDigit? c).isSome) rest
  | '0' :: 'o' :: rest => radix 8 (fun c => '0' ≤ c && c ≤ '7') rest
  | '0' :: 'b' :: rest => radix 2 (fun c => c == '0' || c == '1') rest
  | t => do
      let (negative, rest) := sign t
      let (ds, rest) ← whole? rest
      let n : Int := decimal ds
      return (← fitting? (if negative then -n else n), rest)

/-- Whether a decimal number is too great for a double: at least halfway from
the greatest double to the next power of two. -/
def overflows (mantissa : Nat) (exponent : Int) : Bool :=
  let limit := Nat.pow 2 1024 - Nat.pow 2 970
  if mantissa = 0 then false
  else if 400 < exponent then true
  else if 0 ≤ exponent then limit ≤ mantissa * Nat.pow 10 exponent.toNat
  else limit * Nat.pow 10 (min (-exponent).toNat (mantissa.log2 + 1)) ≤ mantissa

/-- The digits of an exponent behind its mark, with their sign. -/
def exponent? : Text → Option (Int × Text)
  | c :: rest => do
      if c != 'e' && c != 'E' then none
      let (negative, rest) := sign rest
      let (ds, rest) ← digits? Char.isDigit rest
      let n : Int := decimal ds
      return (if negative then -n else n, rest)
  | [] => none

/-- A float: with a fraction, an exponent or both, or one of the special ones.
A positive number must not be too great. -/
def float? (t : Text) : Option Text :=
  let (negative, rest) := sign t
  match rest with
  | 'i' :: 'n' :: 'f' :: rest => some rest
  | 'n' :: 'a' :: 'n' :: rest => some rest
  | _ => do
      let (ds, rest) ← whole? rest
      match rest with
      | '.' :: rest => do
          let (fs, rest) ← digits? Char.isDigit rest
          let (e, rest) := (exponent? rest).getD (0, rest)
          if !negative && overflows (decimal (ds ++ fs)) (e - fs.length) then none
          return rest
      | rest => do
          let (e, rest) ← exponent? rest
          if !negative && overflows (decimal ds) e then none
          return rest

/-! ### Keys -/

/-- A character of a bare key. -/
def isBareKey (c : Char) : Bool := c.isAlphanum || c == '_' || c == '-'

/-- A key without dots. -/
def simpleKey? (t : Text) : Option (String × Text) :=
  match t with
  | '"' :: rest => (basicBody (rest.length + 1) rest).map fun (s, r) => (String.ofList s, r)
  | '\'' :: rest => (literalBody rest).map fun (s, r) => (String.ofList s, r)
  | t =>
      let name := t.takeWhile isBareKey
      if name.isEmpty then none else some (String.ofList name, t.dropWhile isBareKey)

/-- A key with dots: the path before the last dot, and the last part. The fuel
bounds the number of parts. -/
def key? : Nat → Text → Option ((List String × String) × Text)
  | 0, _ => none
  | fuel + 1, t => do
      let (first, rest) ← simpleKey? (skipSpaces t)
      match skipSpaces rest with
      | '.' :: rest => do
          let ((path, last), rest) ← key? fuel rest
          return ((first :: path, last), rest)
      | rest => return (([], first), rest)

/-! ### Values -/

mutual

/-- A value; `depth` levels of nesting are left. -/
def value? : Nat → Nat → Text → Option (Toml × Text)
  | 0, _, _ => none
  | fuel + 1, depth, t =>
      match t with
      | 't' :: 'r' :: 'u' :: 'e' :: rest => some (.boolean true, rest)
      | 'f' :: 'a' :: 'l' :: 's' :: 'e' :: rest => some (.boolean false, rest)
      | '[' :: rest =>
          match depth with
          | 0 => none
          | depth + 1 => (items? fuel depth rest).map fun (xs, r) => (.array xs, r)
      | '\x7b' :: rest =>
          match depth with
          | 0 => none
          | depth + 1 =>
              match skipSpaces rest with
              | '\x7d' :: rest => some (.table [], rest)
              | rest => do
                  let (es, rest) ← pairs? fuel depth rest
                  return (← inlineTable es, rest)
      | '"' :: _ | '\'' :: _ => (string? t).map fun (s, r) => (.string (String.ofList s), r)
      | t =>
          match Datetime.read? t with
          | some (d, rest) => some (.datetime d, rest)
          | none =>
              match float? t with
              | some rest => some (.float, rest)
              | none => (integer? t).map fun (n, r) => (.integer n, r)

/-- The items of an array, up to its closing bracket. -/
def items? : Nat → Nat → Text → Option (List Toml × Text)
  | 0, _, _ => none
  | fuel + 1, depth, t =>
      match skipLines t.length t with
      | ']' :: rest => some ([], rest)
      | t => do
          let (x, rest) ← value? fuel depth t
          match skipLines rest.length rest with
          | ',' :: rest => do
              let (xs, rest) ← items? fuel depth rest
              return (x :: xs, rest)
          | ']' :: rest => return ([x], rest)
          | _ => none

/-- The entries of an inline table that has some, up to its closing brace. -/
def pairs? : Nat → Nat → Text → Option (List (List String × String × Toml) × Text)
  | 0, _, _ => none
  | fuel + 1, depth, t => do
      let ((path, key), rest) ← key? maxDepth t
      let rest ← Text.char? '=' rest
      let (x, rest) ← value? fuel depth (skipSpaces rest)
      match skipSpaces rest with
      | ',' :: rest => do
          let (es, rest) ← pairs? fuel depth rest
          return ((path, key, x) :: es, rest)
      | '\x7d' :: rest => return ([(path, key, x)], rest)
      | _ => none

end

/-! ### Documents -/

/-- A statement of a document. -/
inductive Statement
  | entry (path : List String) (key : String) (v : Toml)
  | table (path : List String) (key : String)
  | element (path : List String) (key : String)

/-- A statement, without its line end. -/
def statement? (t : Text) : Option (Statement × Text) :=
  match t with
  | '[' :: '[' :: rest => do
      let ((path, key), rest) ← key? maxDepth rest
      return (.element path key, ← Text.char? ']' (← Text.char? ']' rest))
  | '[' :: rest => do
      let ((path, key), rest) ← key? maxDepth rest
      return (.table path key, ← Text.char? ']' rest)
  | t => do
      let ((path, key), rest) ← key? maxDepth t
      let rest := skipSpaces (← Text.char? '=' rest)
      let (v, rest) ← value? (2 * rest.length + 2) maxDepth rest
      return (.entry path key v, rest)

/-- The statements of a document; the fuel bounds the number of lines. -/
def statements? : Nat → Text → Option (List Statement)
  | 0, _ => none
  | fuel + 1, t =>
      match skipSpaces t with
      | [] => some []
      | t =>
          match lineEnd? t with
          | some rest => statements? fuel rest
          | none => do
              let (s, rest) ← statement? t
              let rest ← lineEnd? rest
              let more ← statements? fuel rest
              return s :: more

/-- The statements, section by section. -/
def sections : List Statement → List Section
  | statements =>
      let (current, done) := statements.foldl
        (fun (current, done) s =>
          match s, current with
          | .entry path key v, .top es => (.top (es ++ [(path, key, v)]), done)
          | .entry path key v, .table p k es => (.table p k (es ++ [(path, key, v)]), done)
          | .entry path key v, .element p k es => (.element p k (es ++ [(path, key, v)]), done)
          | .table path key, current => (.table path key [], done ++ [current])
          | .element path key, current => (.element path key [], done ++ [current]))
        (Section.top [], [])
      done ++ [current]

/-- The table that a text denotes. -/
def parse? (t : Text) : Option Toml := do
  let t := match t with
    | '\ufeff' :: rest => rest
    | t => t
  assemble (sections (← statements? (t.length + 1) t))

end CartridgeAudit.Toml
