/-
CartridgeAudit/Proofs/Text/Bytes.lean

The bytes of a text.

Offsets count the bytes of the UTF-8 form, and a part of that form, from one
offset up to another one, need not be the form of a part of the text: a cut can
go through a character.  Where a part of the bytes is the form of some text,
however, that text stands there and the cuts are places (`exists_of_utf8_eq`).
The form of a character begins with a byte that stands nowhere else in a form, so
no text begins inside a character, and no form is the beginning of another one
(`utf8EncodeChar_append_inj`).

Main result: the bytes before an offset are those of a text if and only if the
text ends there (`slice_eq_utf8_iff`).
-/
import CartridgeAudit.Proofs.Text.Place

namespace CartridgeAudit.Text

open Cursor

/-- The UTF-8 form of a text. -/
def utf8 (t : Text) : List UInt8 := t.flatMap String.utf8EncodeChar

/-- The bytes of a text from one offset up to another one. -/
def slice (t : Text) (start stop : Nat) : List UInt8 := (t.utf8.drop start).take (stop - start)

theorem utf8_cons (x : Char) (t : Text) : utf8 (x :: t) = String.utf8EncodeChar x ++ t.utf8 :=
  List.flatMap_cons

theorem utf8_append (s t : Text) : utf8 (s ++ t) = s.utf8 ++ t.utf8 := List.flatMap_append

theorem length_utf8 (t : Text) : t.utf8.length = t.byteLength := by
  induction t with
  | nil => rfl
  | cons x t ih =>
    rw [utf8_cons, List.length_append, String.length_utf8EncodeChar, ih, byteLength_cons]

theorem getElem?_utf8 (t : Text) (o : Nat) : t.utf8[o]? = t.byteAt? o := by
  induction t generalizing o with
  | nil => simp [utf8, byteAt?]
  | cons x t ih =>
    rw [utf8_cons, byteAt?]
    split
    · next h => rw [List.getElem?_append_left (by rwa [String.length_utf8EncodeChar])]
    · next h =>
      rw [List.getElem?_append_right (by rw [String.length_utf8EncodeChar]; omega), ih,
        String.length_utf8EncodeChar]

/-- From a place on, bytes are those of the text ahead. -/
theorem slice_offset (c : Cursor) (stop : Nat) :
    slice c.text c.offset stop = c.after.utf8.take (stop - c.offset) := by
  have hbehind : c.offset = (utf8 c.before.reverse).length := by
    rw [length_utf8, byteLength_reverse]
    rfl
  rw [slice, Cursor.text, utf8_append, hbehind, List.drop_left]

/-! ### Forms of characters in the bytes of a text -/

/-- The form of a character tells where the character ends. -/
theorem utf8EncodeChar_append_inj {x y : Char} {s t : List UInt8}
    (h : String.utf8EncodeChar x ++ s = String.utf8EncodeChar y ++ t) : x = y ∧ s = t := by
  have hx := ByteArray.utf8DecodeChar?_utf8EncodeChar_append (b := s.toByteArray) (c := x)
  have hy := ByteArray.utf8DecodeChar?_utf8EncodeChar_append (b := t.toByteArray) (c := y)
  rw [← List.toByteArray_append, h, List.toByteArray_append, hy] at hx
  obtain rfl := Option.some.inj hx
  exact ⟨rfl, List.append_cancel_left h⟩

/-- A text whose form begins that of another one begins it. -/
theorem prefix_of_utf8_prefix {s t : Text} (h : s.utf8 <+: t.utf8) : s <+: t := by
  induction s generalizing t with
  | nil => exact List.nil_prefix
  | cons x s ih =>
    obtain ⟨r, hr⟩ := h
    rw [utf8_cons, List.append_assoc] at hr
    cases t with
    | nil => exact absurd (List.append_eq_nil_iff.1 hr).1 String.utf8EncodeChar_ne_nil
    | cons y t =>
      obtain ⟨rfl, hst⟩ := utf8EncodeChar_append_inj (hr.trans (utf8_cons y t))
      exact List.cons_prefix_cons.2 ⟨rfl, ih ⟨r, hst⟩⟩

/-- The form of a text does not begin inside a character. -/
theorem length_le_of_utf8EncodeChar_append {x : Char} {s : Text} {a b r : List UInt8} (hs : s ≠ [])
    (ha : a ≠ []) (h : String.utf8EncodeChar x ++ r = a ++ (s.utf8 ++ b)) :
    (String.utf8EncodeChar x).length ≤ a.length := by
  by_contra hlt
  obtain ⟨y, s, rfl⟩ := List.exists_cons_of_ne_nil hs
  have hin : a.length < (String.utf8EncodeChar x).length := Nat.lt_of_not_le hlt
  have hpos : 0 < (String.utf8EncodeChar y).length := by
    rw [String.length_utf8EncodeChar]
    exact y.utf8Size_pos
  -- the byte behind `a` is the first one of `y`, and would not be the first one of `x`
  have hbyte : (String.utf8EncodeChar x)[a.length] = (String.utf8EncodeChar y)[0] := by
    have hget := congrArg (fun bytes => bytes[a.length]?) h
    rw [List.getElem?_append_left hin, List.getElem?_append_right (Nat.le_refl _), Nat.sub_self,
      utf8_cons, List.append_assoc, List.getElem?_append_left hpos, List.getElem?_eq_getElem hin,
      List.getElem?_eq_getElem hpos] at hget
    exact Option.some.inj hget
  have hfirst : (String.utf8EncodeChar x)[a.length].IsUTF8FirstByte := by
    rw [hbyte]
    exact UInt8.isUTF8FirstByte_getElem_utf8EncodeChar.2 rfl
  exact ha (List.eq_nil_of_length_eq_zero (UInt8.isUTF8FirstByte_getElem_utf8EncodeChar.1 hfirst))

/-- **Bytes that are the form of a text are that text**: it stands where its
form does. -/
theorem exists_of_utf8_eq {t s : Text} {a b : List UInt8} (hs : s ≠ [])
    (h : t.utf8 = a ++ (s.utf8 ++ b)) : ∃ p q, t = p ++ s ++ q ∧ p.utf8 = a := by
  induction t generalizing a with
  | nil =>
    obtain ⟨y, s, rfl⟩ := List.exists_cons_of_ne_nil hs
    simp [utf8, String.utf8EncodeChar_ne_nil] at h
  | cons x t ih =>
    -- the form begins with this character, or behind it
    by_cases ha : a = []
    · subst ha
      obtain ⟨q, hq⟩ := prefix_of_utf8_prefix ⟨b, h.symm⟩
      exact ⟨[], q, hq.symm, rfl⟩
    · rw [utf8_cons] at h
      have hlen := length_le_of_utf8EncodeChar_append hs ha h
      obtain ⟨a', rfl⟩ := List.prefix_of_prefix_length_le ⟨_, h⟩ ⟨_, rfl⟩ hlen
      rw [List.append_assoc] at h
      obtain ⟨p, q, rfl, hp⟩ := ih (List.append_cancel_left h)
      exact ⟨x :: p, q, rfl, by rw [utf8_cons, hp]⟩

/-! ### The bytes before an offset -/

theorem length_slice (t : Text) (start stop : Nat) :
    (t.slice start stop).length = min (stop - start) (t.byteLength - start) := by
  rw [slice, List.length_take, List.length_drop, length_utf8]

theorem slice_append (p s q : Text) :
    slice (p ++ s ++ q) p.byteLength (p.byteLength + s.byteLength) = s.utf8 := by
  rw [slice, utf8_append, utf8_append, ← length_utf8 p, List.append_assoc, List.drop_left,
    Nat.add_sub_cancel_left, ← length_utf8 s, List.take_left]

/-- Where the bytes before an offset are those of a text, there is room for it. -/
theorem byteLength_le_of_slice_eq {t s : Text} {e : Nat}
    (h : t.slice (e - s.byteLength) e = s.utf8) : s.byteLength ≤ e := by
  have hlen := congrArg List.length h
  rw [length_slice, length_utf8] at hlen
  omega

/-- **The bytes before an offset are those of a text if and only if the text ends
there**, at a place. -/
theorem slice_eq_utf8_iff {t s : Text} {e : Nat} (hs : s ≠ []) :
    t.slice (e - s.byteLength) e = s.utf8 ↔
      ∃ m : Cursor, m.text = t ∧ m.offset = e ∧ m.isAfter s = true := by
  constructor
  · intro h
    have hsplit : t.utf8 = t.utf8.take (e - s.byteLength) ++
        (s.utf8 ++ (t.utf8.drop (e - s.byteLength)).drop (e - (e - s.byteLength))) := by
      rw [← h, slice, List.take_append_drop, List.take_append_drop]
    have hlen := congrArg List.length h
    rw [length_slice, length_utf8] at hlen
    have hpos : 0 < s.byteLength := Nat.pos_of_ne_zero (mt eq_nil_of_byteLength_eq_zero hs)
    obtain ⟨p, q, rfl, hp⟩ := exists_of_utf8_eq hs hsplit
    have hstart : p.byteLength = e - s.byteLength := by
      rw [← length_utf8, hp, List.length_take, length_utf8]
      omega
    refine ⟨⟨(p ++ s).reverse, q⟩, by simp [Cursor.text], ?_, ?_⟩
    · rw [offset, byteLength_reverse, byteLength_append]
      omega
    · rw [isAfter_iff_suffix, List.reverse_reverse]
      exact List.suffix_append p s
  · rintro ⟨m, rfl, rfl, hm⟩
    obtain ⟨p, hp⟩ := isAfter_iff_suffix.1 hm
    have hoffset : m.offset = byteLength p + s.byteLength := by
      rw [offset, ← byteLength_reverse, ← hp, byteLength_append]
    rw [hoffset, Nat.add_sub_cancel, Cursor.text, ← hp]
    exact slice_append p s m.after

end CartridgeAudit.Text
