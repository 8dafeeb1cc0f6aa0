/-
CartridgeAudit/Script/Scope.lean

Scopes between delimiters.

Scripts are not parsed: a scope is found by counting delimiters of one kind,
wherever they stand, in strings and comments too.  `closeFrom` carries the
number of scopes of that kind that were opened inside and are still open, so
the count never runs below zero.
-/
import CartridgeAudit.Error

namespace CartridgeAudit.Script

/-- The kinds of delimiters. -/
inductive Delimiter
  | brace
  | paren
  | bracket
  deriving DecidableEq

namespace Delimiter

/-- The opening delimiter. -/
def opener : Delimiter → Char
  | .brace => '\x7b'
  | .paren => '('
  | .bracket => '['

/-- The closing delimiter. -/
def closer : Delimiter → Char
  | .brace => '\x7d'
  | .paren => ')'
  | .bracket => ']'

/-- The kind of delimiter that a character opens. -/
def ofOpener? (c : Char) : Option Delimiter :=
  if c = '\x7b' then some .brace
  else if c = '(' then some .paren
  else if c = '[' then some .bracket
  else none

/-- The place behind the delimiter that closes a scope, read from inside it;
`inner` scopes of the same kind are open within. -/
def closeFrom (d : Delimiter) : Nat → Text → Text → Option Cursor
  | _, _, [] => none
  | inner, before, c :: cs =>
      if c = d.opener then d.closeFrom (inner + 1) (c :: before) cs
      else if c = d.closer then
        match inner with
        | 0 => some ⟨c :: before, cs⟩
        | n + 1 => d.closeFrom n (c :: before) cs
      else d.closeFrom inner (c :: before) cs

end Delimiter

/-- The place behind the scope that the character ahead opens. -/
def closeScope (c : Cursor) : Except AuditError Cursor :=
  match c.after with
  | [] => .error (.invalidArgument (.notDelimiter c.offset none))
  | x :: xs =>
      match Delimiter.ofOpener? x with
      | none => .error (.invalidArgument (.notDelimiter c.offset (Text.byteAt? c.after 0)))
      | some d =>
          match d.closeFrom 0 (x :: c.before) xs with
          | some e => .ok e
          | none => .error (.scan (.unterminatedScope d.opener c.offset))

/-- The byte offset behind the scope that is opened at a byte offset. -/
def scopeEnd (text : Text) (start : Nat) : Except AuditError Nat :=
  match text.seek start with
  | none => .error (.invalidArgument (.notDelimiter start none))
  | some c =>
      if c.offset = start then (closeScope c).map (·.offset)
      else .error (.invalidArgument (.notDelimiter start (text.byteAt? start)))

end CartridgeAudit.Script
