/-
CartridgeAudit/Pattern/Source.lean

The written form of expressions, read one character at a time.

The notation: `.` `^` `$` `|` `*` `*?` `+` `?` and bounds in braces; groups in
round brackets, with `?:` for a group that captures nothing; classes in square
brackets, `^` first for a complement; `\d` `\s` `\w` with their complements in
capitals and `\b`; a backslash before a character with a meaning of its own.
A leading `(?m)` lets `^` and `$` mean the ends of a line.

The reader is a machine whose state is a stack of open groups.  It takes one
step per character, so reading a text that continues another goes on from the
state that the first one leaves (`Reader.readAll_append`).  An expression is
complete when the machine is between characters and no group is open.
-/
import CartridgeAudit.Pattern.Regex

namespace CartridgeAudit.Pattern

/-! ### Escaping -/

/-- Whether a character has a meaning of its own in the notation. -/
def isMeta (c : Char) : Bool :=
  "\\.+*?()|[]\x7b\x7d^$#&-~".toList.contains c

/-- The written form of a fixed text: a backslash before each character with a
meaning of its own. -/
def escape : Text → Text
  | [] => []
  | c :: cs => if isMeta c then '\\' :: c :: escape cs else c :: escape cs

/-! ### The reader's state -/

/-- An open group: its capture number, the alternatives that are complete and
the items of the current one, both latest first. -/
structure Frame where
  index : Option Nat
  done : List Regex
  items : List Regex
  deriving DecidableEq

/-- What the reader is in the middle of. -/
inductive Mode
  /-- between items -/
  | plain
  /-- behind `*`, where a question mark makes the run lazy -/
  | repeated
  /-- behind a backslash -/
  | escaped
  /-- behind an opening round bracket -/
  | opened
  /-- behind `(?` -/
  | flagged
  /-- behind `(?m` -/
  | multiline
  /-- behind an opening square bracket -/
  | classStart
  /-- in a class -/
  | inClass (negated : Bool) (items : List ClassItem)
  /-- behind a backslash in a class -/
  | classEscaped (negated : Bool) (items : List ClassItem)
  /-- in bounds, before the comma -/
  | lower (lo : Nat)
  /-- in bounds, behind the comma -/
  | upper (lo hi : Nat)
  deriving DecidableEq

/-- The reader: whether lines matter to `^` and `$`, the last capture number,
the innermost open group, the groups around it, and the mode. -/
structure Reader where
  lines : Bool
  captures : Nat
  top : Frame
  outer : List Frame
  mode : Mode
  deriving DecidableEq

namespace Frame

/-- A group just opened. -/
def opening (index : Option Nat) : Frame := ⟨index, [], []⟩

/-- The expression of a group that closes. -/
def close (f : Frame) : Regex :=
  let body := Regex.choice (Regex.sequence f.items.reverse :: f.done).reverse
  match f.index with
  | some i => .capture i body
  | none => body

end Frame

namespace Reader

/-- The reader before the first character. -/
def initial : Reader := ⟨false, 0, .opening none, [], .plain⟩

/-- Adds an item to the current sequence. -/
def push (s : Reader) (r : Regex) : Reader :=
  { s with top := { s.top with items := r :: s.top.items }, mode := .plain }

/-- Applies `f` to the last item of the current sequence. -/
def amend (s : Reader) (f : Regex → Option Regex) : Option Reader :=
  match s.top.items with
  | [] => none
  | r :: rs => (f r).map fun r' =>
      { s with top := { s.top with items := r' :: rs }, mode := .plain }

/-- The named class or its complement that a letter behind a backslash stands
for. -/
def namedClass : Char → Option ClassItem
  | 'd' => some .digit
  | 'D' => some .notDigit
  | 's' => some .blank
  | 'S' => some .notBlank
  | 'w' => some .word
  | 'W' => some .notWord
  | _ => none

/-- A run of what the last item stands for, if that is a class. -/
def starred : Regex → Option Regex
  | .single k => some (.many k false)
  | .capture i r => some (.star (.capture i r))
  | _ => none

/-- At least one round of the last item. -/
def plussed : Regex → Option Regex
  | .single k => some (.run1 k)
  | .capture i r => some (.seq (.capture i r) (.star (.capture i r)))
  | _ => none

/-- The lazy form of a run. -/
def lazily : Regex → Option Regex
  | .many k _ => some (.many k true)
  | _ => none

/-- A character between items. -/
def plainStep (s : Reader) (c : Char) : Option Reader :=
  match c with
  | '\\' => some { s with mode := .escaped }
  | '.' => some (s.push (.single .inLine))
  | '^' => some (s.push (.assert (if s.lines then .lineStart else .textStart)))
  | '$' => some (s.push (.assert (if s.lines then .lineEnd else .textEnd)))
  | '|' =>
      some { s with
        top := { s.top with done := .sequence s.top.items.reverse :: s.top.done, items := [] }
        mode := .plain }
  | '*' => (s.amend starred).map fun s => { s with mode := .repeated }
  | '+' => s.amend plussed
  | '?' => s.amend fun r => some (.maybe r)
  | '\x7b' => if s.top.items.isEmpty then none else some { s with mode := .lower 0 }
  | '(' => some { s with mode := .opened }
  | ')' =>
      match s.outer with
      | [] => none
      | f :: fs => some { s with
          top := { f with items := s.top.close :: f.items }, outer := fs, mode := .plain }
  | '[' => some { s with mode := .classStart }
  | c => some (s.push (.single (.one c)))

/-- A character behind a backslash. -/
def escapedStep (s : Reader) (c : Char) : Option Reader :=
  if c = 'b' then some (s.push .boundary)
  else match namedClass c with
    | some item => some (s.push (.single ⟨false, [item]⟩))
    | none => if isMeta c then some (s.push (.single (.one c))) else none

/-- A character in a class. -/
def classStep (s : Reader) (negated : Bool) (items : List ClassItem) (c : Char) :
    Option Reader :=
  match c with
  | ']' => if items.isEmpty then none else some (s.push (.single ⟨negated, items.reverse⟩))
  | '\\' => some { s with mode := .classEscaped negated items }
  | c => some { s with mode := .inClass negated (.one c :: items) }

/-- The value of an ASCII digit. -/
def digitValue? (c : Char) : Option Nat :=
  if c.isDigit then some (c.toNat - '0'.toNat) else none

/-- Opens a group. -/
def openGroup (s : Reader) (index : Option Nat) : Reader :=
  { s with top := .opening index, outer := s.top :: s.outer, mode := .plain }

/-- One character. -/
def step (s : Reader) (c : Char) : Option Reader :=
  match s.mode with
  | .plain => s.plainStep c
  | .repeated =>
      if c = '?' then s.amend lazily else ({ s with mode := .plain } : Reader).plainStep c
  | .escaped => s.escapedStep c
  | .opened =>
      if c = '?' then some { s with mode := .flagged }
      else
        ({ s with captures := s.captures + 1 } : Reader).openGroup (some (s.captures + 1))
          |>.plainStep c
  | .flagged =>
      if c = ':' then some (s.openGroup none)
      else if c = 'm' then some { s with mode := .multiline }
      else none
  | .multiline => if c = ')' then some { s with lines := true, mode := .plain } else none
  | .classStart =>
      if c = '^' then some { s with mode := .inClass true [] } else s.classStep false [] c
  | .inClass negated items => s.classStep negated items c
  | .classEscaped negated items =>
      match namedClass c with
      | some item => some { s with mode := .inClass negated (item :: items) }
      | none =>
          if isMeta c then some { s with mode := .inClass negated (.one c :: items) } else none
  | .lower lo =>
      if c = ',' then some { s with mode := .upper lo 0 }
      else if c = '\x7d' then s.amend fun r => some (.exactly lo r)
      else (digitValue? c).map fun d => { s with mode := .lower (10 * lo + d) }
  | .upper lo hi =>
      if c = '\x7d' then s.amend fun r => some (.between lo hi r)
      else (digitValue? c).map fun d => { s with mode := .upper lo (10 * hi + d) }

/-- All characters of a text, one after the other. -/
def readAll : Reader → Text → Option Reader
  | s, [] => some s
  | s, c :: cs => (s.step c).bind fun s' => s'.readAll cs

/-- The expression that has been read, if it is complete. -/
def finish (s : Reader) : Option Regex :=
  match s.mode, s.outer with
  | .plain, [] | .repeated, [] => some s.top.close
  | _, _ => none

/-- Reading two texts in a row is reading the second from where the first one
leads. -/
theorem readAll_append (s : Reader) (t u : Text) :
    s.readAll (t ++ u) = (s.readAll t).bind fun s' => s'.readAll u := by
  induction t generalizing s with
  | nil => rfl
  | cons c cs ih =>
    simp only [List.cons_append, readAll]
    cases s.step c with
    | none => rfl
    | some s' => exact ih s'

end Reader

/-- The expression that a text denotes, if it denotes one. -/
def Regex.ofSource? (t : Text) : Option Regex :=
  (Reader.initial.readAll t).bind Reader.finish

end CartridgeAudit.Pattern
