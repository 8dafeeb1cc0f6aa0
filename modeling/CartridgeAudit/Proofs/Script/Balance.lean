/-
CartridgeAudit/Proofs/Script/Balance.lean

Where a scope ends, by counting bytes.

The end of a scope is the least offset up to which, counting from the opening
delimiter, there are as many closing as opening delimiters of its kind.  The
scan goes by characters; bytes are counted here, and an offset may lie inside a
character.  A cut through a character counts for nothing, since no delimiter
has more than one byte (`exists_prefix_count_take`), so every cut has the counts of
a beginning of the text, and at the beginnings before the end of a scope more
scopes are open than closed (`Delimiter.StaysOpen`).

Main result: `scopeEnd_counts`, which says for all three answers when each is
given.
-/
import CartridgeAudit.Proofs.Script.Nesting
import CartridgeAudit.Proofs.Text.Bytes
import Mathlib.Order.Bounds.Basic

namespace CartridgeAudit

open Cursor

/-! ### Characters of the basic alphabet among the bytes -/

namespace Text

/-- The byte of a character of the basic alphabet is in the form of no other. -/
theorem count_utf8EncodeChar {a : Char} (ha : a.toNat < 128) (x : Char) :
    (String.utf8EncodeChar x).count a.toUInt8 = [x].count a := by
  by_cases hx : x.toNat < 128
  · have hsame : x.toUInt8 = a.toUInt8 ↔ x = a := by
      rw [← UInt8.toNat_inj, toNat_toUInt8 hx, toNat_toUInt8 ha, Char.toNat_inj]
    simp only [utf8EncodeChar_of_lt hx, List.count_singleton, beq_iff_eq, hsame]
  · have hne : x ≠ a := by
      rintro rfl
      exact hx ha
    rw [List.count_eq_zero.2, List.count_eq_zero.2 (by simpa using hne.symm)]
    intro hmem
    have hbyte := le_toNat_of_mem_utf8EncodeChar (Nat.le_of_not_lt hx) hmem
    rw [toNat_toUInt8 ha] at hbyte
    omega

theorem count_utf8 {a : Char} (ha : a.toNat < 128) (t : Text) :
    t.utf8.count a.toUInt8 = t.count a := by
  induction t with
  | nil => rfl
  | cons x t ih =>
    rw [utf8_cons, List.count_append, count_utf8EncodeChar ha, ih, ← List.count_append]
    rfl

/-- Cut off anywhere, the bytes of a text hold the characters of the basic
alphabet that a beginning of the text does. -/
theorem exists_prefix_count_take (t : Text) (k : Nat) :
    ∃ p, p <+: t ∧ ∀ a : Char, a.toNat < 128 → (t.utf8.take k).count a.toUInt8 = p.count a := by
  induction t generalizing k with
  | nil => exact ⟨[], List.prefix_rfl, fun a _ => by simp [utf8]⟩
  | cons x t ih =>
    have hlength := String.length_utf8EncodeChar x
    rcases Nat.lt_or_ge k x.utf8Size with hk | hk
    · -- the cut goes through the first character, or comes before it
      refine ⟨[], List.nil_prefix, fun a ha => List.count_eq_zero.2 fun hmem => ?_⟩
      rw [utf8_cons, List.take_append_of_le_length (by omega)] at hmem
      obtain ⟨i, hi, hbyte⟩ := List.getElem_of_mem hmem
      have hsize : x.toNat < 128 → x.utf8Size = 1 := by
        intro hx
        rw [← hlength, utf8EncodeChar_of_lt hx, List.length_singleton]
      have hx : 128 ≤ x.toNat := by
        by_contra hx
        have := hsize (by omega)
        rw [List.length_take] at hi
        omega
      have := le_toNat_of_mem_utf8EncodeChar hx (List.mem_of_mem_take hmem)
      rw [toNat_toUInt8 ha] at this
      omega
    · obtain ⟨p, hp, hcount⟩ := ih (k - x.utf8Size)
      refine ⟨x :: p, List.cons_prefix_cons.2 ⟨rfl, hp⟩, fun a ha => ?_⟩
      rw [utf8_cons, List.take_append, List.take_of_length_le (by omega), hlength,
        List.count_append, count_utf8EncodeChar ha, hcount a ha, ← List.count_append]
      rfl

end Text

namespace Script

open Text

namespace Delimiter

theorem closer_lt (d : Delimiter) : d.closer.toNat < 128 := by
  cases d <;> decide

/-- Among some bytes there are as many closing as opening delimiters. -/
def Balances (d : Delimiter) (bytes : List UInt8) : Prop :=
  bytes.count d.closer.toUInt8 = bytes.count d.opener.toUInt8

/-- Among some bytes there are fewer closing than opening delimiters. -/
def IsOpenIn (d : Delimiter) (bytes : List UInt8) : Prop :=
  bytes.count d.closer.toUInt8 < bytes.count d.opener.toUInt8

/-- Behind an opening delimiter, its scope is open wherever a text is cut off in
which no more scopes are closed than opened. -/
theorem StaysOpen.isOpenIn_take {d : Delimiter} {s : Text} (h : d.StaysOpen 0 s) {k : Nat}
    (hk : 0 < k) : d.IsOpenIn ((utf8 (d.opener :: s)).take k) := by
  obtain ⟨n, rfl⟩ := Nat.exists_eq_succ_of_ne_zero hk.ne'
  obtain ⟨p, hp, hcount⟩ := exists_prefix_count_take s n
  have hle := h p hp
  have hcut : (utf8 (d.opener :: s)).take (n + 1) = d.opener.toUInt8 :: s.utf8.take n := by
    rw [utf8_cons, utf8EncodeChar_of_lt d.opener_lt]
    rfl
  have hne : d.opener.toUInt8 ≠ d.closer.toUInt8 := by cases d <;> decide
  rw [IsOpenIn, hcut, List.count_cons_self, List.count_cons_of_ne hne, hcount _ d.closer_lt,
    hcount _ d.opener_lt]
  omega

end Delimiter

/-! ### The end of a scope -/

section

variable {c e : Cursor} {d : Delimiter}

theorem Delimiter.IsOpenIn.not_balances {bytes : List UInt8} (h : d.IsOpenIn bytes) :
    ¬ d.Balances bytes := ne_of_lt h

/-- Up to every offset before its end, a scope is open. -/
theorem isOpenIn_of_closeScope (h : closeScope c = .ok e) (hd : c.after.head? = some d.opener)
    {k : Nat} (hk : c.offset < k) (hke : k < e.offset) :
    d.IsOpenIn (slice c.text c.offset k) := by
  obtain ⟨d', s, hs, -, hstays⟩ := exists_body_of_closeScope h
  have hahead : c.after = (d'.opener :: s) ++ (d'.closer :: e.after) := by
    rw [hs.ahead]
    simp
  rw [hahead] at hd
  obtain rfl := Delimiter.opener_injective (Option.some.inj hd)
  -- the cut comes before the closing delimiter, which has one byte
  have hsize : d'.closer.utf8Size = 1 := by cases d' <;> decide
  have hoffset := hs.offset_eq
  rw [← List.cons_append, byteLength_append, byteLength_cons d'.closer, hsize] at hoffset
  rw [slice_offset, hahead, utf8_append, List.take_append_of_le_length]
  · exact hstays.isOpenIn_take (by omega)
  · rw [length_utf8]
    simp only [byteLength_nil] at hoffset
    omega

/-- Up to its end, a scope holds as many closing as opening delimiters. -/
theorem balances_of_closeScope (h : closeScope c = .ok e) (hd : c.after.head? = some d.opener) :
    d.Balances (slice c.text c.offset e.offset) := by
  obtain ⟨d', hd', hencloses⟩ := exists_encloses_of_closeScope h
  obtain rfl := Delimiter.opener_injective (Option.some.inj (hd'.symm.trans hd))
  have hleads := leads_upTo (lt_of_closeScope h).le
  have hslice : slice c.text c.offset e.offset = utf8 (c.upTo e) := by
    rw [slice_offset, hleads.offset_eq, Nat.add_sub_cancel_left, hleads.ahead, utf8_append,
      ← length_utf8, List.take_left]
  rw [Delimiter.Balances, hslice, count_utf8 d'.closer_lt, count_utf8 d'.opener_lt,
    hencloses.count_eq]

/-- The end of a scope is the least offset at which it balances. -/
theorem isLeast_of_closeScope (h : closeScope c = .ok e) (hd : c.after.head? = some d.opener) :
    IsLeast {k | c.offset < k ∧ d.Balances (slice c.text c.offset k)} e.offset := by
  refine ⟨⟨?_, balances_of_closeScope h hd⟩, ?_⟩
  · have hlt := lt_of_closeScope h
    exact (lt_iff_offset_lt (text_eq_of_le hlt.le).symm).1 hlt
  · rintro k ⟨hk, hbalances⟩
    by_contra hke
    exact (isOpenIn_of_closeScope h hd hk (Nat.lt_of_not_le hke)).not_balances hbalances

/-- A scope without an end balances nowhere. -/
theorem not_balances_of_closeScope {failure : AuditError} (h : closeScope c = .error failure)
    (hd : c.after.head? = some d.opener) {k : Nat} (hk : c.offset < k) :
    ¬ d.Balances (slice c.text c.offset k) := by
  obtain ⟨before, after⟩ := c
  obtain ⟨xs, rfl⟩ := List.head?_eq_some_iff.1 hd
  have hnone : d.closeFrom 0 (d.opener :: before) xs = none := by
    cases hstop : d.closeFrom 0 (d.opener :: before) xs with
    | none => rfl
    | some e =>
      rw [closeScope_eq_ok_iff.2 ⟨d, xs, rfl, hstop⟩] at h
      cases h
  rw [slice_offset]
  exact ((Delimiter.staysOpen_of_closeFrom_eq_none hnone).isOpenIn_take (by omega)).not_balances

/-- Where a scope opens and has no end, this is the failure. -/
theorem closeScope_eq_error {failure : AuditError} (h : closeScope c = .error failure)
    (hd : c.after.head? = some d.opener) :
    failure = .scan (.unterminatedScope d.opener c.offset) := by
  obtain ⟨before, after⟩ := c
  obtain ⟨xs, rfl⟩ := List.head?_eq_some_iff.1 hd
  simp only [closeScope, Delimiter.ofOpener?_opener] at h
  split at h
  · cases h
  · exact (Except.error.inj h).symm

end

/-- Where no scope opens, the end of one is a bad call. -/
theorem scopeEnd_of_no_opener {t : Text} {start : Nat}
    (h : ∀ d : Delimiter, t.byteAt? start ≠ some d.opener.toUInt8) :
    scopeEnd t start = .error (.invalidArgument (.notDelimiter start (t.byteAt? start))) := by
  unfold scopeEnd
  cases hseek : t.seek start with
  | none =>
    have hend := seek_eq_none hseek
    rw [byteAt?_eq_none_iff.2 (Nat.le_of_lt hend)]
  | some c =>
    dsimp only
    split
    · next hstart =>
      obtain ⟨rfl, -, -⟩ := seek_eq_some hseek
      subst hstart
      have hbyte : byteAt? c.after 0 = byteAt? c.text c.offset := by
        rw [← byteAt?_offset_add c 0, Nat.add_zero]
      obtain ⟨before, _ | ⟨x, xs⟩⟩ := c
      · rw [byteAt?_at_end]
        rfl
      · cases hd : Delimiter.ofOpener? x with
        | none =>
          simp only [closeScope, hd, hbyte]
          rfl
        | some d =>
          obtain rfl := Delimiter.opener_of_ofOpener? hd
          exact absurd (byteAt?_offset_ascii d.opener_lt before xs) (h d)
    · rfl

/-! ### The three answers -/

/-- A delimiter opens a scope at a byte offset. -/
def OpensAt (t : Text) (start : Nat) (d : Delimiter) : Prop :=
  t.utf8[start]? = some d.opener.toUInt8

theorem OpensAt.unique {t : Text} {start : Nat} {d d' : Delimiter} (h : OpensAt t start d)
    (h' : OpensAt t start d') : d = d' := by
  have hbyte := Option.some.inj (h.symm.trans h')
  rw [← UInt8.toNat_inj, toNat_toUInt8 d.opener_lt, toNat_toUInt8 d'.opener_lt, Char.toNat_inj]
    at hbyte
  exact Delimiter.opener_injective hbyte

/-- The offsets behind `start` up to which a scope that opens there balances. -/
def balancedOffsets (t : Text) (start : Nat) (d : Delimiter) : Set Nat :=
  {stop | start < stop ∧ d.Balances (t.slice start stop)}

/-- What the end of a scope is answered with, and when. -/
inductive Answers (t : Text) (start : Nat) : Except AuditError Nat → Prop
  | closed {d : Delimiter} {e : Cursor} (hopens : OpensAt t start d) (htext : e.text = t)
      (hleast : IsLeast (balancedOffsets t start d) e.offset)
      (hopen : ∀ k, start < k → k < e.offset → d.IsOpenIn (t.slice start k)) :
      Answers t start (.ok e.offset)
  | unterminated {d : Delimiter} (hopens : OpensAt t start d)
      (hnone : ∀ k, k ∉ balancedOffsets t start d) :
      Answers t start (.error (.scan (.unterminatedScope d.opener start)))
  | refused (hno : ∀ d, ¬ OpensAt t start d) :
      Answers t start (.error (.invalidArgument (.notDelimiter start t.utf8[start]?)))

theorem answers_scopeEnd (t : Text) (start : Nat) : Answers t start (scopeEnd t start) := by
  by_cases hopens : ∃ d, OpensAt t start d
  · obtain ⟨d, hd⟩ := hopens
    obtain ⟨c, rfl, rfl, hhead⟩ := exists_cursor_of_opener ((getElem?_utf8 t start).symm.trans hd)
    rw [Markup.scopeEnd_offset]
    cases hclose : closeScope c with
    | ok e =>
      refine .closed hd (text_eq_of_le (lt_of_closeScope hclose).le)
        (isLeast_of_closeScope hclose hhead) ?_
      intro k hk hke
      exact isOpenIn_of_closeScope hclose hhead hk hke
    | error failure =>
      obtain rfl := closeScope_eq_error hclose hhead
      refine .unterminated hd ?_
      rintro k ⟨hk, hbalances⟩
      exact not_balances_of_closeScope hclose hhead hk hbalances
  · have hno : ∀ d, ¬ OpensAt t start d := fun d hd => hopens ⟨d, hd⟩
    rw [scopeEnd_of_no_opener fun d hd => hno d ((getElem?_utf8 t start).trans hd),
      ← getElem?_utf8]
    exact .refused hno

/-- **The end of a scope, by counting.** A scope ends at the least offset up to
which there are as many closing as opening delimiters; the text has a place
there, and up to every offset before it there are fewer.  If there is no such
offset the scope is unterminated, and if no delimiter opens at the offset, the
call is refused. -/
theorem scopeEnd_counts (t : Text) (start : Nat) :
    (∀ e, scopeEnd t start = .ok e ↔
      ∃ d, OpensAt t start d ∧ IsLeast (balancedOffsets t start d) e) ∧
    (∀ e, scopeEnd t start = .ok e → (∃ c : Cursor, c.text = t ∧ c.offset = e) ∧
      ∀ d, OpensAt t start d → ∀ k, start < k → k < e → d.IsOpenIn (t.slice start k)) ∧
    (∀ cause, scopeEnd t start = .error (.scan cause) ↔
      ∃ d, OpensAt t start d ∧ cause = .unterminatedScope d.opener start ∧
        ¬ ∃ e, IsLeast (balancedOffsets t start d) e) ∧
    (∀ fault, scopeEnd t start = .error (.invalidArgument fault) ↔
      fault = .notDelimiter start t.utf8[start]? ∧ ∀ d, ¬ OpensAt t start d) := by
  have hanswers := answers_scopeEnd t start
  generalize scopeEnd t start = answer at hanswers
  cases hanswers with
  | @closed d stop hopens htext hleast hopen =>
    refine ⟨fun e => ?_, ?_, fun cause => ?_, fun fault => ?_⟩
    · constructor
      · rintro ⟨⟩
        exact ⟨d, hopens, hleast⟩
      · rintro ⟨d', hopens', hleast'⟩
        obtain rfl := hopens.unique hopens'
        exact congrArg Except.ok (hleast.unique hleast')
    · rintro e ⟨⟩
      refine ⟨⟨stop, htext, rfl⟩, fun d' hopens' => ?_⟩
      obtain rfl := hopens.unique hopens'
      exact hopen
    · refine ⟨nofun, ?_⟩
      rintro ⟨d', hopens', -, hnone⟩
      obtain rfl := hopens.unique hopens'
      exact absurd ⟨_, hleast⟩ hnone
    · exact ⟨nofun, fun h => absurd hopens (h.2 d)⟩
  | @unterminated d hopens hnone =>
    refine ⟨fun e => ?_, nofun, fun cause => ?_, fun fault => ?_⟩
    · refine ⟨nofun, ?_⟩
      rintro ⟨d', hopens', hleast⟩
      obtain rfl := hopens.unique hopens'
      exact absurd hleast.1 (hnone e)
    · constructor
      · rintro ⟨⟩
        exact ⟨d, hopens, rfl, fun ⟨e, hleast⟩ => hnone e hleast.1⟩
      · rintro ⟨d', hopens', rfl, -⟩
        obtain rfl := hopens.unique hopens'
        rfl
    · exact ⟨nofun, fun h => absurd hopens (h.2 d)⟩
  | refused hno =>
    refine ⟨fun e => ?_, nofun, fun cause => ?_, fun fault => ?_⟩
    · exact ⟨nofun, fun ⟨d, hopens, _⟩ => absurd hopens (hno d)⟩
    · exact ⟨nofun, fun ⟨d, hopens, _⟩ => absurd hopens (hno d)⟩
    · constructor
      · rintro ⟨⟩
        exact ⟨rfl, hno⟩
      · rintro ⟨rfl, -⟩
        rfl

end Script

end CartridgeAudit
