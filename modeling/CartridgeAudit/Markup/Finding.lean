/-
CartridgeAudit/Markup/Finding.lean

What rules look for in templates: literal text between tags, output tags, and
tags with an inline style.
-/
import CartridgeAudit.Markup.Segment
import CartridgeAudit.Pattern.Catalog
import CartridgeAudit.Report.Violation

namespace CartridgeAudit.Markup

open Pattern

/-! ### Literal text -/

/-- The text runs with a line that begins with literal text. -/
def hardcodedStrings (text : Text) : Except AuditError (List Violation) := do
  let runs := (← segments text).filterMap fun
    | .text start stop =>
        if Catalog.hardcodedString.isMatch (start.upTo stop) then some (start, stop) else none
    | _ => none
  runs.mapM fun (start, stop) => Violation.new (start.upTo stop) start.offset

/-! ### Output tags -/

/-- The name of the output tag. -/
def outputTag : Text := "isprint".toList

/-- The output tags from a place on; the next `skip` characters belong to one
that has been found. -/
def outputTagsFrom : Nat → Text → Text → Except ScanError (List (Cursor × Cursor))
  | _, _, [] => .ok []
  | skip + 1, before, c :: cs => outputTagsFrom skip (c :: before) cs
  | 0, before, c :: cs =>
      if c = '<' && outputTag.isPrefixOf cs then
        match closeTag ⟨c :: before, cs⟩ with
        | .error e => .error e
        | .ok stop => do
            let start : Cursor := ⟨before, c :: cs⟩
            let rest ← outputTagsFrom (start.distance stop - 1) (c :: before) cs
            return (start, stop) :: rest
      else outputTagsFrom 0 (c :: before) cs

/-- Every output tag, also in attribute values. -/
def outputTags (text : Text) : Except AuditError (List Violation) :=
  match outputTagsFrom 0 [] text with
  | .error e => .error (.scan e)
  | .ok found => found.mapM fun (start, stop) => Violation.new (start.upTo stop) start.offset

/-! ### Inline styles -/

/-- The name of the style attribute. -/
def styleName : Text := "style".toList

/-- Whether an equals sign follows, at most one byte away. -/
def assigned : Text → Bool
  | '=' :: _ => true
  | c :: '=' :: _ => c.utf8Size = 1
  | _ => false

/-- Whether one of the next `n` characters begins a style attribute. `skip`
characters belong to an output tag; such a tag is passed over, unless it begins
at the very first character. -/
def hasInlineStyle : Nat → Nat → Bool → Cursor → Except ScanError Bool
  | 0, _, _, _ => .ok false
  | n + 1, skip + 1, _, c => hasInlineStyle n skip true c.next
  | n + 1, 0, moved, c =>
      if c.startsWith styleName then
        if assigned (c.after.drop styleName.length) then .ok true
        else hasInlineStyle n 0 true c.next
      else if moved && c.isAfter ['<'] && c.startsWith outputTag then
        match closeTag c with
        | .error e => .error e
        | .ok stop => hasInlineStyle n (c.distance stop - 1) true c.next
      else hasInlineStyle n 0 true c.next

/-- Whether a tag carries a style attribute of its own. -/
def isStyled (start stop : Cursor) : Except ScanError Bool :=
  if start.next.startsWith outputTag then .ok false
  else hasInlineStyle (start.distance stop) 0 false start

/-- The verdict on one segment after the other, up to the first that cannot be
judged. -/
def styledTags : List Segment → Except ScanError (List (Cursor × Cursor))
  | [] => .ok []
  | .tag start stop :: rest => do
      let styled ← isStyled start stop
      let found ← styledTags rest
      return if styled then (start, stop) :: found else found
  | _ :: rest => styledTags rest

/-- The tags with a style attribute. -/
def inlineStyleTags (text : Text) : Except AuditError (List Violation) :=
  let lexing := lex scriptTags text
  match styledTags lexing.segments, lexing.failure with
  | .error e, _ => .error (.scan e)
  | .ok _, some e => .error (.scan e)
  | .ok found, none => found.mapM fun (start, stop) => Violation.new (start.upTo stop) start.offset

end CartridgeAudit.Markup
