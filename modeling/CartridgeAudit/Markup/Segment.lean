/-
CartridgeAudit/Markup/Segment.lean

A template as a sequence of segments.

Reading goes from tag to tag.  A tag, or a comment, is followed by the text run
up to the next `<` that is not followed by a space.  An element whose name is
ignored is taken as a whole, up to its closing tag or to `/>`, whichever ends
first, and no text run follows it.  Reading stops at the first malformed tag;
the segments before it are kept.
-/
import CartridgeAudit.Markup.Tag

namespace CartridgeAudit.Markup

/-- A piece of a template. -/
inductive Segment
  /-- a tag or comment -/
  | tag (start stop : Cursor)
  /-- an element whose content is not looked at -/
  | ignored (name : Text) (start stop : Cursor)
  /-- the text behind a tag -/
  | text (start stop : Cursor)
  deriving DecidableEq

/-- What reading a template gives: its segments, and why reading stopped early. -/
structure Lexing where
  segments : List Segment
  failure : Option ScanError
  deriving DecidableEq

/-- The end of a text run: the next `<` that is not followed by a space, or the
end of the text. -/
def textEnd : Text → Text → Cursor
  | before, [] => ⟨before, []⟩
  | before, c :: cs =>
      if c = '<' && cs.head? != some ' ' then ⟨before, c :: cs⟩ else textEnd (c :: before) cs

/-- The elements whose content is script or comment. -/
def scriptTags : List Text := ["isscript".toList, "script".toList, "iscomment".toList]

/-- The closing tag of an element. -/
def closingTag (name : Text) : Text := "</".toList ++ name ++ ">".toList

/-- The place behind an ignored element whose name is ahead. -/
def closeIgnored (element : Text) (name : Cursor) : Except ScanError Cursor :=
  let targets := [closingTag element, "/>".toList]
  match endOf targets name with
  | some c => .ok c
  | none => .error (.missingSequence targets name.offset)

/-! ### Scanning moves on -/

theorem length_tagFrom {before after : Text} {c : Cursor} (h : tagFrom before after = some c) :
    c.after.length ≤ after.length ∧ c.after ≠ [] := by
  induction after generalizing before with
  | nil => simp [tagFrom] at h
  | cons x xs ih =>
    unfold tagFrom at h
    split at h
    · cases h; simp
    · have := ih h
      exact ⟨Nat.le_succ_of_le this.1, this.2⟩

theorem length_endFrom {reversed : List Text} {before after : Text} {c : Cursor}
    (h : endFrom reversed before after = some c) : c.after.length ≤ after.length := by
  induction after generalizing before with
  | nil =>
    unfold endFrom at h
    split at h
    · cases h; simp
    · cases h
  | cons x xs ih =>
    unfold endFrom at h
    split at h
    · cases h; simp
    · exact Nat.le_succ_of_le (ih h)

theorem length_closeFrom {name : Nat} {i : Inside} {before after : Text} {c : Cursor}
    (h : closeFrom name i before after = .ok c) : c.after.length ≤ after.length := by
  fun_induction closeFrom name i before after <;> simp_all <;> try omega
  subst h
  simp

theorem length_closeTag {name c : Cursor} (h : closeTag name = .ok c) :
    c.after.length ≤ name.after.length := by
  unfold closeTag closeComment at h
  split at h
  · split at h
    · next e => cases h; exact length_endFrom e
    · cases h
  · exact length_closeFrom h

theorem length_closeIgnored {element : Text} {name c : Cursor}
    (h : closeIgnored element name = .ok c) : c.after.length ≤ name.after.length := by
  unfold closeIgnored at h
  simp only at h
  split at h
  · next e => cases h; exact length_endFrom e
  · cases h

theorem length_textEnd (before after : Text) :
    (textEnd before after).after.length ≤ after.length := by
  induction after generalizing before with
  | nil => simp [textEnd]
  | cons x xs ih =>
    unfold textEnd
    split
    · simp
    · exact Nat.le_succ_of_le (ih _)

theorem length_next {c : Cursor} (h : c.after ≠ []) : c.next.after.length < c.after.length := by
  obtain ⟨b, _ | ⟨x, xs⟩⟩ := c
  · exact absurd rfl h
  · simp [Cursor.next]

/-! ### Segments -/

/-- The segments from a place between tags on. -/
def lexFrom (ignored : List Text) (c : Cursor) : Lexing :=
  match _hs : tagFrom c.before c.after with
  | none => ⟨[], none⟩
  | some start =>
      let element := if start.next.startsWith commentName then none
        else ignored.find? start.next.startsWith
      match element with
      | some name =>
          match _hc : closeIgnored name start.next with
          | .error e => ⟨[], some e⟩
          | .ok stop =>
              let rest := lexFrom ignored stop
              ⟨.ignored name start stop :: rest.segments, rest.failure⟩
      | none =>
          match _hc : closeTag start.next with
          | .error e => ⟨[], some e⟩
          | .ok stop =>
              let run := textEnd stop.before stop.after
              let rest := lexFrom ignored run
              ⟨.tag start stop :: .text stop run :: rest.segments, rest.failure⟩
termination_by c.after.length
decreasing_by
  · have h := length_tagFrom _hs
    have := length_next h.2
    have := length_closeIgnored _hc
    omega
  · have h := length_tagFrom _hs
    have := length_next h.2
    have := length_closeTag _hc
    have := length_textEnd stop.before stop.after
    omega

/-- The segments of a template; the content of the ignored elements is not
looked at. -/
def lex (ignored : List Text) (text : Text) : Lexing := lexFrom ignored text.start

/-- The segments of a template, if all of it can be read. -/
def segments (text : Text) : Except AuditError (List Segment) :=
  let lexing := lex scriptTags text
  match lexing.failure with
  | none => .ok lexing.segments
  | some e => .error (.scan e)

end CartridgeAudit.Markup
