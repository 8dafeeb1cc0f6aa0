/-
CartridgeAudit/Text/Cursor.lean

Texts and places in them.

A text is a list of characters.  Every position that the auditor reports is a
*byte offset* into the UTF-8 form of the text, so a text has a byte length next
to its number of characters.

A place in a text is a `Cursor`: the characters behind it, nearest first, and
the characters ahead.  Moving a cursor never changes the text it stands in, the
character behind it is at hand (word boundaries and line starts need it), and
its byte offset is the byte length of what is behind.  Scanners take a cursor
and return a later one; a byte offset from outside is turned into a cursor by
`Text.seek`, which goes to the first character boundary at or after it.
-/

namespace CartridgeAudit

/-- A text is the list of its characters. -/
abbrev Text := List Char

namespace Text

/-! ### Byte lengths -/

/-- The number of bytes of the UTF-8 form of a text. -/
def byteLength : Text → Nat
  | [] => 0
  | c :: cs => c.utf8Size + byteLength cs

@[simp] theorem byteLength_nil : byteLength [] = 0 := rfl

@[simp] theorem byteLength_cons (c : Char) (cs : Text) :
    byteLength (c :: cs) = c.utf8Size + byteLength cs := rfl

@[simp] theorem byteLength_append (s t : Text) :
    byteLength (s ++ t) = byteLength s + byteLength t := by
  induction s with
  | nil => simp
  | cons c cs ih => simp [ih, Nat.add_assoc]

@[simp] theorem byteLength_reverse (s : Text) : byteLength s.reverse = byteLength s := by
  induction s with
  | nil => rfl
  | cons c cs ih => simp [ih, Nat.add_comm]

/-- The byte at a byte offset of the UTF-8 form. -/
def byteAt? : Text → Nat → Option UInt8
  | [], _ => none
  | c :: cs, o =>
      if o < c.utf8Size then (String.utf8EncodeChar c)[o]? else byteAt? cs (o - c.utf8Size)

end Text

/-! ### Cursors -/

/-- A place in a text: what is behind it, nearest character first, and what is
ahead. -/
structure Cursor where
  before : Text
  after : Text
  deriving DecidableEq

namespace Cursor

/-- The text the cursor stands in. -/
def text (c : Cursor) : Text := c.before.reverse ++ c.after

/-- The byte offset of the cursor. -/
def offset (c : Cursor) : Nat := Text.byteLength c.before

/-- The cursor one character further on; at the end it stays. -/
def next (c : Cursor) : Cursor :=
  match c.after with
  | [] => c
  | x :: xs => ⟨x :: c.before, xs⟩

/-- The cursor one character back; at the start it stays. -/
def prev (c : Cursor) : Cursor :=
  match c.before with
  | [] => c
  | x :: xs => ⟨xs, x :: c.after⟩

/-- The cursor `n` characters further on. -/
def advance : Nat → Cursor → Cursor
  | 0, c => c
  | n + 1, c => advance n c.next

/-- Whether the text ahead begins with `s`. -/
def startsWith (c : Cursor) (s : Text) : Bool := s.isPrefixOf c.after

/-- Whether the text behind ends with `s`. -/
def isAfter (c : Cursor) (s : Text) : Bool := s.reverse.isPrefixOf c.before

/-- The number of characters from one cursor to a later one in the same text. -/
def distance (c d : Cursor) : Nat := d.before.length - c.before.length

/-- The text from one cursor to a later one in the same text. -/
def upTo (c d : Cursor) : Text := (d.before.take (c.distance d)).reverse

@[simp] theorem text_next (c : Cursor) : c.next.text = c.text := by
  obtain ⟨b, a⟩ := c
  cases a <;> simp [next, text]

end Cursor

namespace Text

/-- The cursor at the start of a text. -/
def start (t : Text) : Cursor := ⟨[], t⟩

/-- Walks over characters while bytes remain to be passed; a character that is
begun is passed as a whole. -/
def seekFrom : Text → Nat → Text → Option Cursor
  | before, 0, after => some ⟨before, after⟩
  | _, _ + 1, [] => none
  | before, n + 1, c :: cs => seekFrom (c :: before) (n + 1 - c.utf8Size) cs

/-- The first character boundary at or after a byte offset, if the offset does
not lie past the end. -/
def seek (t : Text) (o : Nat) : Option Cursor := seekFrom [] o t

end Text

end CartridgeAudit
