/-
CartridgeAudit/Proofs/Markup/TagGrammar.lean

The grammar of tags, and that tags are read by it.

From its name on, a tag is described by a grammar over byte offsets, `TagSpan`:
it ends behind `>`; any other byte is passed over, where a brace takes its whole
scope with it and `<` begins a tag of its own, behind which the outer one goes
on.  The reader knows no grammar.  It walks over the text once, with a count of
the inner tags that are open.

A count of `n` open inner tags stands for `n + 1` tags that are still to be
read, one behind the other (`TagSpans`), and with that the count and the
grammar agree at every place (`closeFrom_eq_ok_iff`).  Where no tag can be
derived the reader fails: at a brace without an end if the scan comes to one
(`Scans`), and at the end of the text otherwise (`closeFrom_eq_error`).
-/
import CartridgeAudit.Proofs.Markup.Scanner

namespace CartridgeAudit.Markup

open Cursor Script

/-! ### The grammar -/

/-- A tag that is read from one byte offset on ends at another. -/
inductive TagSpan (text : Text) : Nat → Nat → Prop
  | close {i : Nat} : text.byteAt? i = some '>'.toUInt8 → TagSpan text i (i + 1)
  | skip {i e : Nat} {b : UInt8} :
      text.byteAt? i = some b → b ≠ '<'.toUInt8 → b ≠ '>'.toUInt8 → b ≠ '\x7b'.toUInt8 →
      TagSpan text (i + 1) e → TagSpan text i e
  | scope {i j e : Nat} :
      text.byteAt? i = some '\x7b'.toUInt8 → scopeEnd text i = .ok j → TagSpan text j e →
      TagSpan text i e
  | nest {i m e : Nat} :
      text.byteAt? i = some '<'.toUInt8 → TagSpan text (i + 1) m → TagSpan text m e →
      TagSpan text i e

/-- So many tags, one behind the other. -/
inductive TagSpans (text : Text) : Nat → Nat → Nat → Prop
  | none (i : Nat) : TagSpans text 0 i i
  | more {n i m e : Nat} : TagSpan text i m → TagSpans text n m e → TagSpans text (n + 1) i e

/-- A scan for the end of a tag that starts at one byte offset comes to
another. It goes from byte to byte, and over the scope of a brace at once. -/
inductive Scans (text : Text) : Nat → Nat → Prop
  | here (i : Nat) : Scans text i i
  | next {i p : Nat} {b : UInt8} :
      text.byteAt? i = some b → b ≠ '\x7b'.toUInt8 → Scans text (i + 1) p → Scans text i p
  | scope {i j p : Nat} :
      text.byteAt? i = some '\x7b'.toUInt8 → scopeEnd text i = .ok j → Scans text j p →
      Scans text i p

/-- A brace whose scope has no end. -/
def Unclosed (text : Text) (p : Nat) : Prop :=
  text.byteAt? p = some '\x7b'.toUInt8 ∧ ∀ j, scopeEnd text p ≠ .ok j

/-- The first brace without an end that a scan comes to. -/
def FirstUnclosed (text : Text) (i p : Nat) : Prop :=
  Scans text i p ∧ Unclosed text p ∧ ∀ q, Scans text i q → Unclosed text q → p ≤ q

/-! ### The grammar at one place

What the byte at a place says about the tags that are read from there on. -/

variable {text : Text} {n i e : Nat}

theorem tagSpan_close_iff (h : text.byteAt? i = some '>'.toUInt8) :
    TagSpan text i e ↔ e = i + 1 := by
  constructor
  · intro hs
    cases hs with
    | close => rfl
    | skip hb _ hgt _ _ =>
      rw [h] at hb
      exact absurd (Option.some.inj hb).symm hgt
    | scope hb _ _ => exact absurd (h.symm.trans hb) (by decide)
    | nest hb _ _ => exact absurd (h.symm.trans hb) (by decide)
  · rintro rfl
    exact .close h

theorem tagSpan_nest_iff (h : text.byteAt? i = some '<'.toUInt8) :
    TagSpan text i e ↔ ∃ m, TagSpan text (i + 1) m ∧ TagSpan text m e := by
  constructor
  · intro hs
    cases hs with
    | close hb => exact absurd (h.symm.trans hb) (by decide)
    | skip hb hlt _ _ _ =>
      rw [h] at hb
      exact absurd (Option.some.inj hb).symm hlt
    | scope hb _ _ => exact absurd (h.symm.trans hb) (by decide)
    | nest _ h₁ h₂ => exact ⟨_, h₁, h₂⟩
  · rintro ⟨m, h₁, h₂⟩
    exact .nest h h₁ h₂

theorem tagSpan_scope_iff (h : text.byteAt? i = some '\x7b'.toUInt8) :
    TagSpan text i e ↔ ∃ j, scopeEnd text i = .ok j ∧ TagSpan text j e := by
  constructor
  · intro hs
    cases hs with
    | close hb => exact absurd (h.symm.trans hb) (by decide)
    | skip hb _ _ hbrace _ =>
      rw [h] at hb
      exact absurd (Option.some.inj hb).symm hbrace
    | scope _ hj hs => exact ⟨_, hj, hs⟩
    | nest hb _ _ => exact absurd (h.symm.trans hb) (by decide)
  · rintro ⟨j, hj, hs⟩
    exact .scope h hj hs

/-- A byte that neither opens nor closes anything in a tag. -/
def Plain (text : Text) (i : Nat) : Prop :=
  ∃ b, text.byteAt? i = some b ∧ b ≠ '<'.toUInt8 ∧ b ≠ '>'.toUInt8 ∧ b ≠ '\x7b'.toUInt8

theorem tagSpan_skip_iff (h : Plain text i) : TagSpan text i e ↔ TagSpan text (i + 1) e := by
  obtain ⟨b, hb, hlt, hgt, hbrace⟩ := h
  constructor
  · intro hs
    cases hs with
    | close hb' => exact absurd (Option.some.inj (hb.symm.trans hb')) hgt
    | skip _ _ _ _ hs => exact hs
    | scope hb' _ _ => exact absurd (Option.some.inj (hb.symm.trans hb')) hbrace
    | nest hb' _ _ => exact absurd (Option.some.inj (hb.symm.trans hb')) hlt
  · exact fun hs => .skip hb hlt hgt hbrace hs

theorem not_tagSpan_of_none (h : text.byteAt? i = none) : ¬ TagSpan text i e := by
  intro hs
  cases hs <;> simp_all

theorem tagSpans_one_iff : TagSpans text 1 i e ↔ TagSpan text i e := by
  constructor
  · rintro (_ | ⟨hs, ⟨⟩⟩)
    exact hs
  · exact fun hs => .more hs (.none e)

theorem tagSpans_succ_iff :
    TagSpans text (n + 1) i e ↔ ∃ m, TagSpan text i m ∧ TagSpans text n m e := by
  constructor
  · rintro (_ | ⟨hs, hr⟩)
    exact ⟨_, hs, hr⟩
  · rintro ⟨m, hs, hr⟩
    exact .more hs hr

/-! ### Scans at one place -/

/-- A scan comes to a brace without an end. -/
def ScansTo (text : Text) (i p : Nat) : Prop := Scans text i p ∧ Unclosed text p

theorem scansTo_next_iff {p : Nat} {b : UInt8} (hb : text.byteAt? i = some b)
    (hbrace : b ≠ '\x7b'.toUInt8) : ScansTo text i p ↔ ScansTo text (i + 1) p := by
  constructor
  · rintro ⟨hs, hu⟩
    cases hs with
    | here => exact absurd (Option.some.inj (hb.symm.trans hu.1)) hbrace
    | next _ _ hs => exact ⟨hs, hu⟩
    | scope hb' _ _ => exact absurd (Option.some.inj (hb.symm.trans hb')) hbrace
  · rintro ⟨hs, hu⟩
    exact ⟨.next hb hbrace hs, hu⟩

theorem scansTo_scope_iff {p j : Nat} (hb : text.byteAt? i = some '\x7b'.toUInt8)
    (hj : scopeEnd text i = .ok j) : ScansTo text i p ↔ ScansTo text j p := by
  constructor
  · rintro ⟨hs, hu⟩
    cases hs with
    | here => exact absurd hj (hu.2 j)
    | next hb' hbrace _ => exact absurd (Option.some.inj (hb.symm.trans hb')).symm hbrace
    | scope _ hj' hs =>
      obtain rfl := Except.ok.inj (hj.symm.trans hj')
      exact ⟨hs, hu⟩
  · rintro ⟨hs, hu⟩
    exact ⟨.scope hb hj hs, hu⟩

theorem scansTo_unclosed_iff {p : Nat} (h : Unclosed text i) : ScansTo text i p ↔ p = i := by
  constructor
  · rintro ⟨hs, -⟩
    cases hs with
    | here => rfl
    | next hb hbrace _ => exact absurd (Option.some.inj (h.1.symm.trans hb)).symm hbrace
    | scope _ hj _ => exact absurd hj (h.2 _)
  · rintro rfl
    exact ⟨.here _, h⟩

theorem not_scansTo_of_none {p : Nat} (h : text.byteAt? i = none) : ¬ ScansTo text i p := by
  rintro ⟨hs, hu⟩
  cases hs with
  | here => exact absurd (h.symm.trans hu.1) (by simp)
  | next hb _ _ => exact absurd (h.symm.trans hb) (by simp)
  | scope hb _ _ => exact absurd (h.symm.trans hb) (by simp)

/-- A stretch of plain bytes changes nothing. -/
theorem plain_stretch {j : Nat} (hij : i ≤ j) (h : ∀ k, i ≤ k → k < j → Plain text k) :
    (∀ e, TagSpan text i e ↔ TagSpan text j e) ∧ ∀ p, ScansTo text i p ↔ ScansTo text j p := by
  induction hij with
  | refl => exact ⟨fun _ => Iff.rfl, fun _ => Iff.rfl⟩
  | @step j hij ih =>
    obtain ⟨ihs, ihp⟩ := ih fun k hk hkj => h k hk (Nat.lt_succ_of_lt hkj)
    have hj := h j hij (Nat.lt_succ_self j)
    obtain ⟨b, hb, -, -, hbrace⟩ := hj
    refine ⟨fun e => (ihs e).trans (tagSpan_skip_iff (h j hij (Nat.lt_succ_self j))), fun p => ?_⟩
    exact (ihp p).trans (scansTo_next_iff hb hbrace)

/-- The bytes of a character that is no mark are plain. -/
theorem plain_of_isMark_eq_false {before xs : Text} {x : Char} (hx : isMark x = false) {k : Nat}
    (hk : offset ⟨before, x :: xs⟩ ≤ k) (hkx : k < offset ⟨x :: before, xs⟩) :
    Plain (Cursor.text ⟨before, x :: xs⟩) k := by
  obtain ⟨d, rfl⟩ := Nat.exists_eq_add_of_le hk
  have hd : d < x.utf8Size := by
    simp only [offset, Text.byteLength_cons] at hkx
    omega
  have hlen : d < (String.utf8EncodeChar x).length := by simpa using hd
  have hbyte : Text.byteAt? (Cursor.text ⟨before, x :: xs⟩) (offset ⟨before, x :: xs⟩ + d) =
      some (String.utf8EncodeChar x)[d] := by
    rw [Text.byteAt?_offset_add, Text.byteAt?_cons_of_lt hd, List.getElem?_eq_getElem hlen]
  have hne : ∀ a : Char, a.toNat < 128 → x ≠ a → (String.utf8EncodeChar x)[d] ≠ a.toUInt8 := by
    intro a ha hxa hb
    have h := List.getElem?_eq_getElem hlen
    rw [hb] at h
    exact hxa (Text.getElem?_utf8EncodeChar_eq_ascii ha h).2
  simp only [isMark, Bool.or_eq_false_iff, decide_eq_false_iff_not] at hx
  exact ⟨_, hbyte, hne _ (by decide) hx.1.1, hne _ (by decide) hx.1.2, hne _ (by decide) hx.2⟩

theorem plain_stretch_cons {before xs : Text} {x : Char} (hx : isMark x = false) :
    (∀ e, TagSpan (Cursor.text ⟨before, x :: xs⟩) (offset ⟨before, x :: xs⟩) e ↔
      TagSpan (Cursor.text ⟨before, x :: xs⟩) (offset ⟨x :: before, xs⟩) e) ∧
    ∀ p, ScansTo (Cursor.text ⟨before, x :: xs⟩) (offset ⟨before, x :: xs⟩) p ↔
      ScansTo (Cursor.text ⟨before, x :: xs⟩) (offset ⟨x :: before, xs⟩) p :=
  plain_stretch (offset_le_of_le (lt_cons before x xs).le) fun _ => plain_of_isMark_eq_false hx

/-! ### The reader and the grammar -/

theorem offset_ascii_cons {a : Char} (ha : a.utf8Size = 1) (before xs : Text) :
    offset ⟨a :: before, xs⟩ = offset ⟨before, a :: xs⟩ + 1 := by
  simp only [offset, Text.byteLength_cons, ha]
  omega

/-- **The count of open tags is a row of tags still to be read**: with `inner`
tags open, the reader ends where `inner + 1` tags of the grammar end. -/
theorem closeFrom_eq_ok_iff (name inner : Nat) (c : Cursor) (e : Nat) :
    (closeFrom name (.tag inner) c.before c.after).map (·.offset) = .ok e ↔
      TagSpans c.text (inner + 1) c.offset e := by
  induction inner, c using tagReading_induction generalizing e with
  | finish inner before =>
    rw [tagSpans_succ_iff]
    constructor
    · intro h
      cases h
    · rintro ⟨m, hm, -⟩
      exact absurd hm (not_tagSpan_of_none (Text.byteAt?_at_end before))
  | close before xs =>
    have hb := Text.byteAt?_offset_ascii (a := '>') (by decide) before xs
    rw [tagSpans_one_iff, tagSpan_close_iff hb, ← offset_ascii_cons (by decide)]
    exact ⟨fun h => (Except.ok.inj h).symm, fun h => congrArg Except.ok h.symm⟩
  | closeInner inner before xs ih =>
    have hb := Text.byteAt?_offset_ascii (a := '>') (by decide) before xs
    have ht := (Leads.cons before '>' xs).text_eq
    rw [tagSpans_succ_iff]
    simp only [tagSpan_close_iff hb, exists_eq_left]
    rw [← offset_ascii_cons (by decide), ← ht]
    exact ih e
  | openInner inner before xs ih =>
    have hb := Text.byteAt?_offset_ascii (a := '<') (by decide) before xs
    have ht := (Leads.cons before '<' xs).text_eq
    -- the tag that opens here and what is left of the one around it are the first two of the row
    rw [closeFrom_tag_open, ih e, ht, offset_ascii_cons (by decide), tagSpans_succ_iff,
      tagSpans_succ_iff]
    simp only [tagSpans_succ_iff, tagSpan_nest_iff hb]
    constructor
    · rintro ⟨m, hm, m', hm', hr⟩
      exact ⟨m', ⟨m, hm, hm'⟩, hr⟩
    · rintro ⟨m', ⟨m, hm, hm'⟩, hr⟩
      exact ⟨m, hm, m', hm', hr⟩
  | expression inner before xs d hd ih =>
    have hb := Text.byteAt?_offset_ascii (a := '\x7b') (by decide) before xs
    have ht := text_eq_of_le ((lt_cons before _ xs).trans (lt_of_closeScope hd)).le
    have hend := scopeEnd_brace before xs
    rw [hd] at hend
    rw [closeFrom_tag_brace, hd, tagSpans_succ_iff]
    simp only [tagSpan_scope_iff hb, hend, Except.ok.injEq, exists_eq_left']
    rw [ih e, ht, tagSpans_succ_iff]
  | unclosed inner before xs hd =>
    have hb := Text.byteAt?_offset_ascii (a := '\x7b') (by decide) before xs
    have hend := scopeEnd_brace before xs
    rw [hd] at hend
    rw [closeFrom_tag_brace, hd, tagSpans_succ_iff]
    simp [tagSpan_scope_iff hb, hend, Except.map]
  | other inner before x xs hx ih =>
    have ht := (Leads.cons before x xs).text_eq
    rw [closeFrom_tag_other _ _ _ _ hx, ih e, ht, tagSpans_succ_iff, tagSpans_succ_iff]
    simp only [(plain_stretch_cons hx).1]

/-- **How the reader fails**: at a brace without an end if the scan comes to
one, and otherwise at the end of the text. -/
theorem closeFrom_eq_error {name inner : Nat} {c : Cursor} {err : ScanError}
    (h : closeFrom name (.tag inner) c.before c.after = .error err) :
    (∃ p, ScansTo c.text c.offset p ∧ err = .unterminatedScope '\x7b' p) ∨
      (∀ p, ¬ ScansTo c.text c.offset p) ∧ err = .unterminatedTag name := by
  induction inner, c using tagReading_induction with
  | finish inner before =>
    right
    exact ⟨fun p => not_scansTo_of_none (Text.byteAt?_at_end before), (Except.error.inj h).symm⟩
  | close before xs => cases h
  | closeInner inner before xs ih =>
    have hb := Text.byteAt?_offset_ascii (a := '>') (by decide) before xs
    have ht := (Leads.cons before '>' xs).text_eq
    have := ih h
    simp only [scansTo_next_iff hb (by decide)]
    rwa [ht, offset_ascii_cons (by decide)] at this
  | openInner inner before xs ih =>
    have hb := Text.byteAt?_offset_ascii (a := '<') (by decide) before xs
    have ht := (Leads.cons before '<' xs).text_eq
    rw [closeFrom_tag_open] at h
    have := ih h
    simp only [scansTo_next_iff hb (by decide)]
    rwa [ht, offset_ascii_cons (by decide)] at this
  | expression inner before xs d hd ih =>
    have hb := Text.byteAt?_offset_ascii (a := '\x7b') (by decide) before xs
    have ht := text_eq_of_le ((lt_cons before _ xs).trans (lt_of_closeScope hd)).le
    have hend := scopeEnd_brace before xs
    rw [hd] at hend
    rw [closeFrom_tag_brace, hd] at h
    have := ih h
    simp only [scansTo_scope_iff hb hend]
    rwa [ht] at this
  | unclosed inner before xs hd =>
    have hb := Text.byteAt?_offset_ascii (a := '\x7b') (by decide) before xs
    have hend := scopeEnd_brace before xs
    rw [hd] at hend
    have hu : Unclosed (Cursor.text ⟨before, '\x7b' :: xs⟩) (offset ⟨before, '\x7b' :: xs⟩) := by
      refine ⟨hb, fun j hj => ?_⟩
      rw [hend] at hj
      cases hj
    rw [closeFrom_tag_brace, hd] at h
    exact .inl ⟨_, ⟨.here _, hu⟩, (Except.error.inj h).symm⟩
  | other inner before x xs hx ih =>
    have ht := (Leads.cons before x xs).text_eq
    rw [closeFrom_tag_other _ _ _ _ hx] at h
    have := ih h
    simp only [(plain_stretch_cons hx).2]
    rwa [ht] at this

/-! ### The end of a tag by offsets -/

/-- A scan comes to at most one brace without an end: there it stops. -/
theorem scansTo_unique {p q : Nat} (hp : ScansTo text i p) (hq : ScansTo text i q) : p = q := by
  obtain ⟨hs, hu⟩ := hp
  induction hs with
  | here => exact ((scansTo_unclosed_iff hu).1 hq).symm
  | next hb hbrace _ ih => exact ih ((scansTo_next_iff hb hbrace).1 hq) hu
  | scope hb hj _ ih => exact ih ((scansTo_scope_iff hb hj).1 hq) hu

/-- The bytes from an offset inside a character to the next place are plain. -/
theorem plain_of_seek {o : Nat} {c : Cursor} (h : text.seek o = some c) :
    o ≤ c.offset ∧ ∀ k, o ≤ k → k < c.offset → Plain text k := by
  obtain ⟨ht, ho, -⟩ := Text.seek_eq_some h
  refine ⟨ho, fun k hk hkc => ?_⟩
  have hlen := c.offset_le_byteLength
  rw [ht] at hlen
  cases hb : text.byteAt? k with
  | none =>
    rw [Text.byteAt?_eq_none_iff] at hb
    omega
  | some b =>
    have hne : ∀ a : Char, a.toNat < 128 → b ≠ a.toUInt8 := by
      intro a ha hba
      exact Text.byteAt?_ne_ascii_of_seek ha h hk hkc (hb.trans (congrArg some hba))
    exact ⟨b, hb, hne _ (by decide), hne _ (by decide), hne _ (by decide)⟩

/-- Where no comment begins, the end of a tag is what the reader gives at the
first place from the offset on. -/
theorem tagEnd_eq_closeFrom {name : Nat} {c : Cursor}
    (hname : nameAt text name [commentName] = none) (hc : text.seek name = some c) :
    tagEnd text name = (closeFrom (max name 1) (.tag 0) c.before c.after).map (·.offset) := by
  have hno : (decide (c.offset = name) && c.startsWith commentName) = false := by
    by_cases ho : c.offset = name
    · simpa [nameAt, hc, ho] using hname
    · simp [ho]
  rw [tagEnd, hc]
  simp only [hno, Bool.false_eq_true, if_false]

/-- **Tags are read by the grammar**: where no comment begins, a tag ends at `e`
if and only if the grammar derives that.  If it derives no end at all, reading
fails at the first brace without an end that the scan comes to, and without
such a brace because the tag itself has no end. -/
theorem tagEnd_eq_ok_iff_tagSpan (text : Text) (name : Nat)
    (hname : nameAt text name [commentName] = none) :
    (∀ e, tagEnd text name = .ok e ↔ TagSpan text name e) ∧
      ((∀ e, ¬ TagSpan text name e) →
        (∀ p, FirstUnclosed text name p →
          tagEnd text name = .error (.unterminatedScope '\x7b' p)) ∧
        ((∀ p, ¬ FirstUnclosed text name p) →
          tagEnd text name = .error (.unterminatedTag (max name 1)))) := by
  have hfirst : ∀ {p}, ScansTo text name p → FirstUnclosed text name p := by
    intro p hp
    exact ⟨hp.1, hp.2, fun q hq hu => Nat.le_of_eq (scansTo_unique hp ⟨hq, hu⟩)⟩
  cases hc : text.seek name with
  | none =>
    have hnone : text.byteAt? name = none :=
      Text.byteAt?_eq_none_iff.2 (Nat.le_of_lt (Text.seek_eq_none hc))
    have hend : tagEnd text name = .error (.unterminatedTag (max name 1)) := by
      rw [tagEnd, hc]
    refine ⟨fun e => ?_, fun _ => ⟨fun p hp => ?_, fun _ => hend⟩⟩
    · simp [hend, not_tagSpan_of_none hnone]
    · exact absurd ⟨hp.1, hp.2.1⟩ (not_scansTo_of_none hnone)
  | some c =>
    obtain ⟨ht, -, -⟩ := Text.seek_eq_some hc
    obtain ⟨hle, hplain⟩ := plain_of_seek hc
    obtain ⟨hspan, hscan⟩ := plain_stretch hle hplain
    have hok : ∀ e, tagEnd text name = .ok e ↔ TagSpan text name e := by
      intro e
      rw [tagEnd_eq_closeFrom hname hc, closeFrom_eq_ok_iff, tagSpans_one_iff, ht, hspan]
    refine ⟨hok, fun hno => ?_⟩
    -- the reader cannot succeed, so it fails in one of its two ways
    cases hr : closeFrom (max name 1) (.tag 0) c.before c.after with
    | ok d =>
      refine absurd ((hok d.offset).1 ?_) (hno _)
      rw [tagEnd_eq_closeFrom hname hc, hr]
      rfl
    | error err =>
      have hend : tagEnd text name = .error err := by
        rw [tagEnd_eq_closeFrom hname hc, hr]
        rfl
      rw [hend]
      have herr := closeFrom_eq_error hr
      rw [ht] at herr
      simp only [← hscan] at herr
      rcases herr with ⟨q, hq, rfl⟩ | ⟨hnone, rfl⟩
      · refine ⟨fun p hp => ?_, fun hnone => absurd (hfirst hq) (hnone q)⟩
        rw [scansTo_unique hq ⟨hp.1, hp.2.1⟩]
      · exact ⟨fun p hp => absurd ⟨hp.1, hp.2.1⟩ (hnone p), fun _ => rfl⟩

/-- A tag whose attribute holds another tag, whose expression holds a `>`. -/
theorem tagEnd_eq_ok_iff_tagSpan_nested :
    nameAt "<tr é='<b \x7b>\x7d>'>x".toList 1 [commentName] = none ∧
      TagSpan "<tr é='<b \x7b>\x7d>'>x".toList 1 17 :=
  ⟨by decide, ((tagEnd_eq_ok_iff_tagSpan _ 1 (by decide)).1 17).1 (by decide)⟩

end CartridgeAudit.Markup
