/-
CartridgeAudit/Proofs/Text/Place.lean

Places in a text, and the byte offsets that stand for them.

Scanners move cursors, answers give byte offsets.  Here the two are tied
together.  A cursor is *at most* another one if reading on from the first leads
to the second (`Cursor.Leads`); this is a partial order, and within one text it
is the order of the byte offsets (`Cursor.le_iff_offset_le`), so a place in a
text is known by its offset alone.

A byte of the basic alphabet in the UTF-8 form of a text is a character of the
text (`Text.byteAt?_eq_ascii_iff`): all bytes of a longer character lie above.
That is why a scan by bytes and a scan by characters see the same delimiters.

Scans for the first place with a property are all of one kind, `firstPlace`,
and have one specification (`firstPlace_eq_some_iff`).
-/
import CartridgeAudit.Text.Cursor
import Mathlib.Order.Basic

namespace CartridgeAudit

namespace Cursor

/-! ### The order of places -/

/-- Reading `s` leads from one place to another. -/
structure Leads (c : Cursor) (s : Text) (d : Cursor) : Prop where
  ahead : c.after = s ++ d.after
  behind : d.before = s.reverse ++ c.before

theorem Leads.refl (c : Cursor) : c.Leads [] c := ⟨rfl, rfl⟩

theorem leads_nil_iff {c d : Cursor} : c.Leads [] d ↔ c = d := by
  constructor
  · rintro ⟨ha, hb⟩
    cases c
    cases d
    simp_all
  · rintro rfl
    exact Leads.refl c

theorem Leads.trans {c d e : Cursor} {s t : Text} (h : c.Leads s d) (h' : d.Leads t e) :
    c.Leads (s ++ t) e := by
  refine ⟨?_, ?_⟩
  · rw [h.ahead, h'.ahead, List.append_assoc]
  · rw [h'.behind, h.behind, List.reverse_append, List.append_assoc]

/-- Reading a text leads to one place only. -/
theorem Leads.right_unique {c d e : Cursor} {s : Text} (h : c.Leads s d) (h' : c.Leads s e) :
    d = e := by
  have hahead := List.append_cancel_left (h.ahead.symm.trans h'.ahead)
  have hbehind := h.behind.trans h'.behind.symm
  cases d
  cases e
  simp_all

theorem Leads.cons (before : Text) (x : Char) (xs : Text) :
    Leads ⟨before, x :: xs⟩ [x] ⟨x :: before, xs⟩ := ⟨rfl, rfl⟩

theorem leads_cons_iff {before after s : Text} {x : Char} {d : Cursor} :
    Leads ⟨before, after⟩ (x :: s) d ↔ ∃ xs, after = x :: xs ∧ Leads ⟨x :: before, xs⟩ s d := by
  constructor
  · rintro ⟨ha, hb⟩
    exact ⟨s ++ d.after, ha, rfl, by simpa using hb⟩
  · rintro ⟨xs, rfl, h⟩
    exact (Leads.cons before x xs).trans h

theorem Leads.text_eq {c d : Cursor} {s : Text} (h : c.Leads s d) : d.text = c.text := by
  simp [text, h.ahead, h.behind]

theorem Leads.offset_eq {c d : Cursor} {s : Text} (h : c.Leads s d) :
    d.offset = c.offset + Text.byteLength s := by
  simp [offset, h.behind, Nat.add_comm]

theorem Leads.distance_eq {c d : Cursor} {s : Text} (h : c.Leads s d) :
    c.distance d = s.length := by
  simp [distance, h.behind]

theorem Leads.prev_eq {c d : Cursor} {x : Char} (h : c.Leads [x] d) : d.prev = c := by
  obtain ⟨before, after⟩ := c
  obtain ⟨behind, ahead⟩ := d
  obtain ⟨hafter, hbefore⟩ := h
  obtain rfl : behind = x :: before := hbefore
  obtain rfl : after = x :: ahead := hafter
  rfl

theorem Leads.upTo_eq {c d : Cursor} {s : Text} (h : c.Leads s d) : c.upTo d = s := by
  rw [upTo, h.distance_eq, h.behind, ← List.length_reverse, List.take_left, List.reverse_reverse]

/-- The text behind two places of one text starts alike. -/
theorem Leads.of_text_eq {c d : Cursor} {s : Text} (ht : d.text = c.text)
    (h : d.before = s.reverse ++ c.before) : c.Leads s d := by
  refine ⟨?_, h⟩
  simpa [text, h] using ht.symm

instance : LE Cursor := ⟨fun c d => ∃ s, c.Leads s d⟩

theorem Leads.le {c d : Cursor} {s : Text} (h : c.Leads s d) : c ≤ d := ⟨s, h⟩

theorem text_eq_of_le {c d : Cursor} (h : c ≤ d) : d.text = c.text := by
  obtain ⟨s, hs⟩ := h
  exact hs.text_eq

theorem offset_le_of_le {c d : Cursor} (h : c ≤ d) : c.offset ≤ d.offset := by
  obtain ⟨s, hs⟩ := h
  rw [hs.offset_eq]
  exact Nat.le_add_right _ _

theorem leads_upTo {c d : Cursor} (h : c ≤ d) : c.Leads (c.upTo d) d := by
  obtain ⟨s, hs⟩ := h
  rwa [hs.upTo_eq]

end Cursor

namespace Text

theorem eq_nil_of_byteLength_eq_zero {s : Text} (h : s.byteLength = 0) : s = [] := by
  cases s with
  | nil => rfl
  | cons c cs =>
    have hc := c.utf8Size_pos
    rw [byteLength_cons] at h
    omega

end Text

namespace Cursor

/-- Two places of one text with the same offset are the same. -/
theorem eq_of_offset_eq {c d : Cursor} (ht : c.text = d.text) (ho : c.offset = d.offset) :
    c = d := by
  -- the shorter text behind is a part of the longer one, and the part between has no bytes
  have key : ∀ {c d : Cursor}, c.text = d.text → c.offset = d.offset →
      c.before.length ≤ d.before.length → c = d := by
    intro c d ht ho hl
    have hc : c.before.reverse <+: d.text := ⟨c.after, ht⟩
    have hd : d.before.reverse <+: d.text := ⟨d.after, rfl⟩
    obtain ⟨s, hs⟩ := List.prefix_of_prefix_length_le hc hd (by simpa using hl)
    have hb : d.before = s.reverse ++ c.before := by
      have h := congrArg List.reverse hs
      simpa using h.symm
    have hl := Leads.of_text_eq ht.symm hb
    have h0 : Text.byteLength s = 0 := by
      have := hl.offset_eq
      omega
    have hnil := Text.eq_nil_of_byteLength_eq_zero h0
    subst hnil
    obtain ⟨ha, hb⟩ := hl
    cases c
    cases d
    simp_all
  rcases Nat.le_total c.before.length d.before.length with h | h
  · exact key ht ho h
  · exact (key ht.symm ho.symm h).symm

instance : PartialOrder Cursor where
  le_refl c := ⟨[], Leads.refl c⟩
  le_trans := by
    rintro c d e ⟨s, hs⟩ ⟨t, ht⟩
    exact ⟨s ++ t, hs.trans ht⟩
  le_antisymm := by
    intro c d h h'
    refine eq_of_offset_eq (text_eq_of_le h') ?_
    exact Nat.le_antisymm (offset_le_of_le h) (offset_le_of_le h')

/-- Within one text one of two places is at most the other. -/
theorem le_total_of_text_eq {c d : Cursor} (ht : c.text = d.text) : c ≤ d ∨ d ≤ c := by
  have hc : c.before.reverse <+: d.text := ⟨c.after, ht⟩
  have hd : d.before.reverse <+: d.text := ⟨d.after, rfl⟩
  rcases List.prefix_or_prefix_of_prefix hc hd with ⟨s, hs⟩ | ⟨s, hs⟩
  · refine .inl ⟨s, Leads.of_text_eq ht.symm ?_⟩
    simpa using (congrArg List.reverse hs).symm
  · refine .inr ⟨s, Leads.of_text_eq ht ?_⟩
    simpa using (congrArg List.reverse hs).symm

/-- Within one text the order of places is the order of their offsets. -/
theorem le_iff_offset_le {c d : Cursor} (ht : c.text = d.text) : c ≤ d ↔ c.offset ≤ d.offset := by
  constructor
  · exact offset_le_of_le
  · intro ho
    rcases le_total_of_text_eq ht with h | h
    · exact h
    · exact (eq_of_offset_eq ht (Nat.le_antisymm ho (offset_le_of_le h))).le

theorem lt_iff_offset_lt {c d : Cursor} (ht : c.text = d.text) : c < d ↔ c.offset < d.offset := by
  rw [lt_iff_le_not_ge, le_iff_offset_le ht, le_iff_offset_le ht.symm]
  omega

theorem offset_lt_of_lt {c d : Cursor} (h : c < d) : c.offset < d.offset :=
  (lt_iff_offset_lt (text_eq_of_le h.le).symm).1 h

/-- Behind a common earlier place, one of two places comes first. -/
theorem lt_or_le_of_le {c d m : Cursor} (hd : c ≤ d) (hm : c ≤ m) : m < d ∨ d ≤ m := by
  have ht : m.text = d.text := (text_eq_of_le hm).trans (text_eq_of_le hd).symm
  rw [lt_iff_offset_lt ht, le_iff_offset_le ht.symm]
  exact Nat.lt_or_ge _ _

/-- From the end of a text nothing leads on. -/
theorem nil_le_iff {before : Text} {d : Cursor} : ⟨before, []⟩ ≤ d ↔ d = ⟨before, []⟩ := by
  constructor
  · rintro ⟨s, ha, hb⟩
    obtain ⟨rfl, hd⟩ := List.append_eq_nil_iff.1 ha.symm
    cases d
    simp_all
  · rintro rfl
    exact le_rfl

/-- A later place is this one, or is reached behind the next character. -/
theorem cons_le_iff {before : Text} {x : Char} {xs : Text} {d : Cursor} :
    ⟨before, x :: xs⟩ ≤ d ↔ d = ⟨before, x :: xs⟩ ∨ ⟨x :: before, xs⟩ ≤ d := by
  constructor
  · rintro ⟨s, ha, hb⟩
    cases s with
    | nil =>
      left
      cases d
      simp_all
    | cons y ys =>
      obtain ⟨rfl, hys⟩ := List.cons.inj ha
      exact .inr ⟨ys, hys, by simpa using hb⟩
  · rintro (rfl | h)
    · exact le_rfl
    · exact (Leads.cons before x xs).le.trans h

theorem le_next (c : Cursor) : c ≤ c.next := by
  obtain ⟨before, _ | ⟨x, xs⟩⟩ := c
  · exact le_rfl
  · exact (Leads.cons before x xs).le

theorem lt_cons (before : Text) (x : Char) (xs : Text) :
    (⟨before, x :: xs⟩ : Cursor) < ⟨x :: before, xs⟩ := by
  have h := Leads.cons before x xs
  refine (lt_iff_offset_lt h.text_eq.symm).2 ?_
  have hx := x.utf8Size_pos
  have ho := h.offset_eq
  simp only [Text.byteLength_cons, Text.byteLength_nil] at ho
  omega

/-- Behind the character ahead is the first place that comes later. -/
theorem cons_lt_iff {before : Text} {x : Char} {xs : Text} {d : Cursor} :
    ⟨before, x :: xs⟩ < d ↔ ⟨x :: before, xs⟩ ≤ d := by
  constructor
  · intro h
    rcases cons_le_iff.1 h.le with rfl | hd
    · exact absurd h (lt_irrefl _)
    · exact hd
  · exact fun h => (lt_cons before x xs).trans_le h

theorem offset_le_byteLength (c : Cursor) : c.offset ≤ Text.byteLength c.text := by
  simp [offset, text]

theorem start_le (c : Cursor) : Text.start c.text ≤ c :=
  ⟨c.before.reverse, by simp [Text.start, text], by simp [Text.start]⟩

/-- A place on a way cuts the way in two. -/
theorem Leads.split_of_le {c m d : Cursor} {t : Text} (h : c.Leads t d) (hm : c ≤ m) (hd : m ≤ d) :
    ∃ s r, t = s ++ r ∧ c.Leads s m ∧ m.Leads r d := by
  obtain ⟨s, hs⟩ := hm
  obtain ⟨r, hr⟩ := hd
  refine ⟨s, r, ?_, hs, hr⟩
  rw [← h.upTo_eq, (hs.trans hr).upTo_eq]

theorem Leads.exists_between {c d : Cursor} {s r : Text} (h : c.Leads (s ++ r) d) :
    ∃ m, c.Leads s m ∧ m.Leads r d :=
  ⟨⟨s.reverse ++ c.before, r ++ d.after⟩, ⟨by simp [h.ahead], rfl⟩, rfl, by simp [h.behind]⟩

theorem Leads.lt_iff {c d : Cursor} {t : Text} (h : c.Leads t d) : c < d ↔ t ≠ [] := by
  have ho := h.offset_eq
  rw [lt_iff_offset_lt h.text_eq.symm]
  constructor
  · rintro hlt rfl
    simp at ho
    omega
  · intro hne
    have := mt Text.eq_nil_of_byteLength_eq_zero hne
    omega

/-- A way without the character behind a place that it passes begins at that place. -/
theorem Leads.eq_of_not_mem {c m d : Cursor} {t : Text} (h : c.Leads t d) {x : Char} (hx : x ∉ t)
    (hm : c ≤ m) (hd : m ≤ d) (hbehind : m.before.head? = some x) : c = m := by
  obtain ⟨s, r, rfl, hs, -⟩ := h.split_of_le hm hd
  by_contra hne
  obtain ⟨y, ys, hy⟩ := List.exists_cons_of_ne_nil
    (mt List.reverse_eq_nil_iff.1 (hs.lt_iff.1 (lt_of_le_of_ne hm hne)))
  rw [hs.behind, hy] at hbehind
  obtain rfl : y = x := Option.some.inj hbehind
  exact hx (List.mem_append_left r (List.mem_reverse.1 (hy ▸ List.mem_cons_self)))

/-- Less is ahead of a later place. -/
theorem length_after_lt_of_lt {c d : Cursor} (h : c < d) : d.after.length < c.after.length := by
  obtain ⟨s, hs⟩ := h.le
  rw [hs.ahead, List.length_append]
  exact Nat.lt_add_of_pos_left (List.length_pos_iff.2 (hs.lt_iff.1 h))

theorem isAfter_iff_suffix {c : Cursor} {s : Text} :
    c.isAfter s = true ↔ s <:+ c.before.reverse := by
  rw [isAfter, List.isPrefixOf_iff_prefix, ← List.reverse_prefix, List.reverse_reverse]

/-! ### The first place with a property -/

/-- The first place at or after `before | after` that has a property. -/
def firstPlace (p : Cursor → Bool) : Text → Text → Option Cursor
  | before, [] => if p ⟨before, []⟩ then some ⟨before, []⟩ else none
  | before, x :: xs =>
      if p ⟨before, x :: xs⟩ then some ⟨before, x :: xs⟩ else firstPlace p (x :: before) xs

/-- Nothing is found if and only if no later place has the property. -/
theorem firstPlace_eq_none_iff {p : Cursor → Bool} {before after : Text} :
    firstPlace p before after = none ↔ ∀ m : Cursor, ⟨before, after⟩ ≤ m → p m = false := by
  induction after generalizing before with
  | nil => cases h : p ⟨before, []⟩ <;> simp [firstPlace, nil_le_iff, h]
  | cons x xs ih =>
    cases h : p ⟨before, x :: xs⟩
    · simp [firstPlace, h, ih, cons_le_iff]
    · simp [firstPlace, h, cons_le_iff]

/-- What is found has the property, and no place before it does. -/
theorem firstPlace_eq_some_iff {p : Cursor → Bool} {before after : Text} {d : Cursor} :
    firstPlace p before after = some d ↔
      ⟨before, after⟩ ≤ d ∧ p d = true ∧
        ∀ m : Cursor, ⟨before, after⟩ ≤ m → p m = true → d ≤ m := by
  induction after generalizing before with
  | nil =>
    cases h : p ⟨before, []⟩
    · simp only [firstPlace, h, nil_le_iff]
      grind
    · simp only [firstPlace, h, nil_le_iff]
      grind
  | cons x xs ih =>
    cases h : p ⟨before, x :: xs⟩
    · rw [firstPlace, if_neg (by simp [h]), ih]
      constructor
      · rintro ⟨hd, hp, hmin⟩
        refine ⟨cons_le_iff.2 (.inr hd), hp, fun m hm hpm => ?_⟩
        rcases cons_le_iff.1 hm with rfl | hm
        · simp [h] at hpm
        · exact hmin m hm hpm
      · rintro ⟨hd, hp, hmin⟩
        refine ⟨?_, hp, fun m hm => hmin m (cons_le_iff.2 (.inr hm))⟩
        rcases cons_le_iff.1 hd with rfl | hd
        · simp [h] at hp
        · exact hd
    · simp only [firstPlace, h, if_true, Option.some.injEq]
      constructor
      · rintro rfl
        exact ⟨le_rfl, h, fun m hm _ => hm⟩
      · rintro ⟨hd, -, hmin⟩
        exact le_antisymm hd (hmin _ le_rfl h)

end Cursor

namespace Text

/-! ### Bytes and characters -/

theorem byteAt?_append (s t : Text) (k : Nat) :
    byteAt? (s ++ t) (byteLength s + k) = byteAt? t k := by
  induction s with
  | nil => simp
  | cons c cs ih =>
    have h : c.utf8Size + byteLength cs + k - c.utf8Size = byteLength cs + k := by omega
    simp only [List.cons_append, byteAt?, byteLength_cons, h, ih]
    exact if_neg (by omega)

/-- From a place on, bytes are counted from the text ahead. -/
theorem byteAt?_offset_add (c : Cursor) (k : Nat) :
    byteAt? c.text (c.offset + k) = byteAt? c.after k := by
  have h := byteAt?_append c.before.reverse c.after k
  rwa [byteLength_reverse] at h

theorem byteAt?_eq_none_iff {t : Text} {o : Nat} : byteAt? t o = none ↔ byteLength t ≤ o := by
  induction t generalizing o with
  | nil => simp [byteAt?]
  | cons c cs ih =>
    rw [byteAt?, byteLength_cons]
    split
    · next h => simp; omega
    · next h => rw [ih]; omega

theorem byteAt?_at_end (before : Text) :
    byteAt? (Cursor.text ⟨before, []⟩) (Cursor.offset ⟨before, []⟩) = none := by
  rw [byteAt?_eq_none_iff]
  simp [Cursor.text, Cursor.offset]

/-- The bytes of a longer character are all above the basic alphabet. -/
theorem le_toNat_of_mem_utf8EncodeChar {x : Char} {b : UInt8} (hx : 128 ≤ x.toNat)
    (h : b ∈ String.utf8EncodeChar x) : 128 ≤ b.toNat := by
  rw [String.utf8EncodeChar] at h
  simp only [show x.val.toNat = x.toNat from rfl] at h
  split at h
  · omega
  · split at h
    · simp only [List.mem_cons, List.not_mem_nil, or_false] at h
      rcases h with rfl | rfl <;> simp only [UInt8.toNat_ofNat'] <;> omega
    · split at h
      · simp only [List.mem_cons, List.not_mem_nil, or_false] at h
        rcases h with rfl | rfl | rfl <;> simp only [UInt8.toNat_ofNat'] <;> omega
      · simp only [List.mem_cons, List.not_mem_nil, or_false] at h
        rcases h with rfl | rfl | rfl | rfl <;> simp only [UInt8.toNat_ofNat'] <;> omega

theorem toNat_toUInt8 {x : Char} (hx : x.toNat < 128) : x.toUInt8.toNat = x.toNat := by
  have h : x.toUInt8.toNat = x.toNat % 2 ^ 8 := UInt32.toNat_toUInt8 x.val
  omega

theorem utf8EncodeChar_of_lt {x : Char} (hx : x.toNat < 128) :
    String.utf8EncodeChar x = [x.toUInt8] := by
  have h : UInt8.ofNat x.toNat = x.toUInt8 := by
    apply UInt8.toNat_inj.1
    rw [toNat_toUInt8 hx, UInt8.toNat_ofNat']
    omega
  rw [← h]
  exact if_pos (Nat.le_of_lt_succ hx)

theorem getElem?_utf8EncodeChar_eq_ascii {x a : Char} {k : Nat} (ha : a.toNat < 128)
    (h : (String.utf8EncodeChar x)[k]? = some a.toUInt8) : k = 0 ∧ x = a := by
  have hat := toNat_toUInt8 ha
  by_cases hx : 128 ≤ x.toNat
  · have hb := le_toNat_of_mem_utf8EncodeChar hx (List.mem_of_getElem? h)
    omega
  · rw [utf8EncodeChar_of_lt (by omega)] at h
    obtain ⟨hk, h⟩ := List.getElem?_eq_some_iff.1 h
    obtain rfl : k = 0 := by simpa using hk
    refine ⟨rfl, ?_⟩
    have hxt : x.toUInt8.toNat = x.toNat := toNat_toUInt8 (by omega)
    have hb : x.toUInt8 = a.toUInt8 := h
    apply Char.toNat_inj.1
    rw [← hxt, ← hat, hb]

theorem byteAt?_cons_of_lt {x : Char} {xs : Text} {k : Nat} (hk : k < x.utf8Size) :
    byteAt? (x :: xs) k = (String.utf8EncodeChar x)[k]? := by
  rw [byteAt?, if_pos hk]

theorem byteAt?_ascii_cons {a : Char} (ha : a.toNat < 128) (r : Text) :
    byteAt? (a :: r) 0 = some a.toUInt8 := by
  rw [byteAt?_cons_of_lt a.utf8Size_pos, utf8EncodeChar_of_lt ha]
  rfl

/-- The byte at a place before a character of the basic alphabet. -/
theorem byteAt?_offset_ascii {a : Char} (ha : a.toNat < 128) (before r : Text) :
    byteAt? (Cursor.text ⟨before, a :: r⟩) (Cursor.offset ⟨before, a :: r⟩) = some a.toUInt8 := by
  have h := byteAt?_offset_add ⟨before, a :: r⟩ 0
  rw [Nat.add_zero] at h
  rw [h, byteAt?_ascii_cons ha]

/-- **A byte of the basic alphabet is a character**: the byte at an offset is
that of `a` if and only if `a` itself begins there. -/
theorem byteAt?_eq_ascii_iff {t : Text} {o : Nat} {a : Char} (ha : a.toNat < 128) :
    byteAt? t o = some a.toUInt8 ↔ ∃ s r, t = s ++ a :: r ∧ byteLength s = o := by
  constructor
  · intro h
    induction t generalizing o with
    | nil => simp [byteAt?] at h
    | cons x xs ih =>
      by_cases ho : o < x.utf8Size
      · rw [byteAt?_cons_of_lt ho] at h
        obtain ⟨rfl, rfl⟩ := getElem?_utf8EncodeChar_eq_ascii ha h
        exact ⟨[], xs, rfl, rfl⟩
      · rw [byteAt?, if_neg ho] at h
        obtain ⟨s, r, rfl, hs⟩ := ih h
        refine ⟨x :: s, r, rfl, ?_⟩
        rw [byteLength_cons]
        omega
  · rintro ⟨s, r, rfl, rfl⟩
    have h := byteAt?_append s (a :: r) 0
    rw [Nat.add_zero] at h
    rw [h, byteAt?_ascii_cons ha]

/-- The same by cursors. -/
theorem byteAt?_eq_ascii_iff_cursor {t : Text} {o : Nat} {a : Char} (ha : a.toNat < 128) :
    byteAt? t o = some a.toUInt8 ↔
      ∃ m : Cursor, m.text = t ∧ m.offset = o ∧ m.after.head? = some a := by
  rw [byteAt?_eq_ascii_iff ha]
  constructor
  · rintro ⟨s, r, rfl, rfl⟩
    exact ⟨⟨s.reverse, a :: r⟩, by simp [Cursor.text], by simp [Cursor.offset], rfl⟩
  · rintro ⟨⟨b, after⟩, rfl, rfl, hm⟩
    obtain ⟨r, rfl⟩ := List.head?_eq_some_iff.1 hm
    exact ⟨b.reverse, r, rfl, by simp [Cursor.offset]⟩

/-! ### Going to an offset -/

theorem seekFrom_eq_some {before after : Text} {n : Nat} {c : Cursor}
    (h : seekFrom before n after = some c) :
    ⟨before, after⟩ ≤ c ∧ byteLength before + n ≤ c.offset ∧
      ∀ m : Cursor, ⟨before, after⟩ ≤ m → byteLength before + n ≤ m.offset → c ≤ m := by
  induction after generalizing before n with
  | nil =>
    cases n with
    | zero =>
      cases h
      exact ⟨le_rfl, Nat.le_refl _, fun m hm _ => hm⟩
    | succ n => cases h
  | cons x xs ih =>
    cases n with
    | zero =>
      cases h
      exact ⟨le_rfl, Nat.le_refl _, fun m hm _ => hm⟩
    | succ n =>
      obtain ⟨hle, ho, hmin⟩ := ih h
      have hx := x.utf8Size_pos
      rw [byteLength_cons] at ho hmin
      refine ⟨Cursor.cons_le_iff.2 (.inr hle), by omega, fun m hm hmo => ?_⟩
      rcases Cursor.cons_le_iff.1 hm with rfl | hm
      · simp only [Cursor.offset] at hmo
        omega
      · refine hmin m hm ?_
        have hxm := Cursor.offset_le_of_le hm
        simp only [Cursor.offset, byteLength_cons] at hxm hmo ⊢
        omega

theorem seekFrom_eq_none {before after : Text} {n : Nat}
    (h : seekFrom before n after = none) : byteLength after < n := by
  induction after generalizing before n with
  | nil => cases n <;> simp_all [seekFrom]
  | cons x xs ih =>
    cases n with
    | zero => cases h
    | succ n =>
      have := ih h
      have hx := x.utf8Size_pos
      rw [byteLength_cons]
      omega

/-- Seeking goes to the first place at or after an offset. -/
theorem seek_eq_some {t : Text} {o : Nat} {c : Cursor} (h : t.seek o = some c) :
    c.text = t ∧ o ≤ c.offset ∧ ∀ m : Cursor, m.text = t → o ≤ m.offset → c ≤ m := by
  obtain ⟨hle, ho, hmin⟩ := seekFrom_eq_some h
  have ht : c.text = t := Cursor.text_eq_of_le hle
  refine ⟨ht, by simpa using ho, fun m hm hmo => hmin m ?_ (by simpa using hmo)⟩
  rw [← hm]
  exact m.start_le

/-- Seeking fails behind the end only. -/
theorem seek_eq_none {t : Text} {o : Nat} (h : t.seek o = none) : byteLength t < o :=
  seekFrom_eq_none h

/-- Seeking the offset of a place goes there. -/
theorem seek_offset (c : Cursor) : seek c.text c.offset = some c := by
  cases h : seek c.text c.offset with
  | none =>
    have := seek_eq_none h
    have := c.offset_le_byteLength
    omega
  | some d =>
    obtain ⟨ht, ho, hmin⟩ := seek_eq_some h
    have hd : d ≤ c := hmin c rfl (Nat.le_refl _)
    rw [le_antisymm hd ((Cursor.le_iff_offset_le ht.symm).2 ho)]

/-- Between an offset and the place that is sought there is no place, so no
byte of the basic alphabet. -/
theorem byteAt?_ne_ascii_of_seek {t : Text} {o k : Nat} {c : Cursor} {a : Char}
    (ha : a.toNat < 128) (h : t.seek o = some c) (hk : o ≤ k) (hc : k < c.offset) :
    byteAt? t k ≠ some a.toUInt8 := by
  intro hb
  obtain ⟨m, hm, rfl, -⟩ := (byteAt?_eq_ascii_iff_cursor ha).1 hb
  obtain ⟨-, -, hmin⟩ := seek_eq_some h
  have := Cursor.offset_le_of_le (hmin m hm hk)
  omega

end Text

end CartridgeAudit
