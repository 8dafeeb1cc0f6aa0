/-
CartridgeAudit/Markup/Tag.lean

Where tags begin and end.

A tag begins at `<` before a character that is not blank.  From its name on, a
tag is read with a count of the tags that were opened inside it, so that a tag
in an attribute value does not end the outer one.  Between braces only braces
count, which lets an expression hold any markup.  A comment ends at `-->`.
-/
import CartridgeAudit.Script.Scope
import CartridgeAudit.Text.Blank

namespace CartridgeAudit.Markup

/-! ### Tag starts -/

/-- Whether a tag begins here. -/
def isTagStart : Text → Bool
  | '<' :: c :: _ => !Text.isBlank c
  | _ => false

/-- The first place at or after `before | after` where a tag begins. -/
def tagFrom : Text → Text → Option Cursor
  | _, [] => none
  | before, c :: cs =>
      if isTagStart (c :: cs) then some ⟨before, c :: cs⟩ else tagFrom (c :: before) cs

/-- The byte offset of the first tag at or after a byte offset. -/
def nextTagStart (text : Text) (offset : Nat) : Option Nat :=
  (text.seek offset).bind fun c => (tagFrom c.before c.after).map (·.offset)

/-- The first of the names that the text continues with at a byte offset. Inside
a character it continues with nothing. -/
def nameAt (text : Text) (offset : Nat) (names : List Text) : Option Text :=
  (text.seek offset).bind fun c =>
    if c.offset = offset then names.find? c.startsWith else names.find? (·.isEmpty)

/-- Whether the text up to a byte offset ends with `tail`. -/
def isAfter (text : Text) (offset : Nat) (tail : Text) : Bool :=
  match text.seek offset with
  | none => false
  | some c => if c.offset = offset then c.isAfter tail else tail.isEmpty

/-! ### Closing sequences -/

/-- The first place at or after `before | after` that directly follows one of
the targets, which are given backwards. -/
def endFrom (reversed : List Text) : Text → Text → Option Cursor
  | before, [] =>
      if reversed.any (·.isPrefixOf before) then some ⟨before, []⟩ else none
  | before, c :: cs =>
      if reversed.any (·.isPrefixOf before) then some ⟨before, c :: cs⟩
      else endFrom reversed (c :: before) cs

/-- The first place at or after a cursor that directly follows one of the
targets. Empty targets do not count. -/
def endOf (targets : List Text) (c : Cursor) : Option Cursor :=
  endFrom ((targets.filter (!·.isEmpty)).map List.reverse) c.before c.after

/-- The first byte offset at or after the given one that directly follows one
of the targets. -/
def positionAfter (text : Text) (offset : Nat) (targets : List Text) : Except ScanError Nat :=
  match (text.seek offset).bind (endOf targets) with
  | some c => .ok c.offset
  | none => .error (.missingSequence targets offset)

/-! ### Tag ends -/

/-- Where a tag is being read. -/
inductive Inside
  /-- in markup, with so many inner tags open -/
  | tag (inner : Nat)
  /-- in an expression that opened at a place, with so many inner braces open -/
  | expression (inner : Nat) (opened : Cursor) (braces : Nat)
  deriving DecidableEq

/-- The place behind the end of a tag whose name begins at the byte offset
`name`. -/
def closeFrom (name : Nat) : Inside → Text → Text → Except ScanError Cursor
  | .tag _, _, [] => .error (.unterminatedTag name)
  | .expression _ opened _, _, [] => .error (.unterminatedScope '\x7b' opened.offset)
  | .tag inner, before, c :: cs =>
      if c = '>' then
        match inner with
        | 0 => .ok ⟨c :: before, cs⟩
        | n + 1 => closeFrom name (.tag n) (c :: before) cs
      else if c = '<' then closeFrom name (.tag (inner + 1)) (c :: before) cs
      else if c = '\x7b' then
        closeFrom name (.expression inner ⟨before, c :: cs⟩ 0) (c :: before) cs
      else closeFrom name (.tag inner) (c :: before) cs
  | .expression inner opened braces, before, c :: cs =>
      if c = '\x7b' then
        closeFrom name (.expression inner opened (braces + 1)) (c :: before) cs
      else if c = '\x7d' then
        match braces with
        | 0 => closeFrom name (.tag inner) (c :: before) cs
        | n + 1 => closeFrom name (.expression inner opened n) (c :: before) cs
      else closeFrom name (.expression inner opened braces) (c :: before) cs

/-- What a comment's name begins with. -/
def commentName : Text := "!--".toList

/-- What ends a comment. -/
def commentEnd : Text := "-->".toList

/-- The place behind a comment whose name is ahead. -/
def closeComment (name : Cursor) : Except ScanError Cursor :=
  match endOf [commentEnd] name with
  | some c => .ok c
  | none => .error (.missingSequence [commentEnd] name.offset)

/-- The place behind the tag or comment whose name is ahead. -/
def closeTag (name : Cursor) : Except ScanError Cursor :=
  if name.startsWith commentName then closeComment name
  else closeFrom name.offset (.tag 0) name.before name.after

/-- The byte offset behind the tag or comment whose name begins at a byte
offset. A name cannot begin at the very start, since `<` stands before it. -/
def tagEnd (text : Text) (name : Nat) : Except ScanError Nat :=
  match text.seek name with
  | none => .error (.unterminatedTag (max name 1))
  | some c =>
      if c.offset = name && c.startsWith commentName then (closeComment c).map (·.offset)
      else (closeFrom (max name 1) (.tag 0) c.before c.after).map (·.offset)

end CartridgeAudit.Markup
