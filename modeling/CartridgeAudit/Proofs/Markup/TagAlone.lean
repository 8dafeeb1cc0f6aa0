/-
CartridgeAudit/Proofs/Markup/TagAlone.lean

A tag on its own, and the same tag in a template.

A place in a part of a text is a place in the whole text (`Cursor.within`).
Scopes, tags and comments that end in the part end there for the part alone, and
the other way round (`closeTag_within_iff`).  Names in front of a `>` of the part
are the same for both, and so is what stands behind a `<` of it.  So the scan of
a tag in a template and the scan of the tag on its own come to the same places,
and they decide alike, with one exception: behind the word `style` an equals sign
is looked for up to one byte further on, and in a tag that ends in `style>` this
byte is behind the tag (`styleAt_within_iff`, `Leaks`).

Main result: `inlineStyle_iff_alone`.
-/
import CartridgeAudit.Proofs.Markup.StyleScan
import CartridgeAudit.Proofs.Text.Parts
import Mathlib.Data.List.Find

namespace CartridgeAudit

/-! ### Places in a part of a text -/

namespace Cursor

/-- A place in a part of a text as a place in the whole text; `b` stands before
the part, nearest character first, and `a` behind it. -/
def within (b a : Text) (c : Cursor) : Cursor := ⟨c.before ++ b, c.after ++ a⟩

section

variable {b a s : Text} {c d m : Cursor}

theorem within_cons (b a before xs : Text) (x : Char) :
    within b a ⟨before, x :: xs⟩ = ⟨before ++ b, x :: (xs ++ a)⟩ := rfl

theorem within_inj : c.within b a = d.within b a ↔ c = d := by
  obtain ⟨before, after⟩ := c
  obtain ⟨before', after'⟩ := d
  simp [within]

theorem leads_within_iff : (c.within b a).Leads s (d.within b a) ↔ c.Leads s d := by
  constructor
  · rintro ⟨hahead, hbehind⟩
    have hahead' : c.after ++ a = (s ++ d.after) ++ a := by simpa [within] using hahead
    have hbehind' : d.before ++ b = (s.reverse ++ c.before) ++ b := by simpa [within] using hbehind
    exact ⟨List.append_cancel_right hahead', List.append_cancel_right hbehind'⟩
  · rintro ⟨hahead, hbehind⟩
    exact ⟨by simp [within, hahead], by simp [within, hbehind]⟩

theorem within_le_iff : c.within b a ≤ d.within b a ↔ c ≤ d :=
  exists_congr fun _ => leads_within_iff

theorem within_lt_iff : c.within b a < d.within b a ↔ c < d := by
  rw [lt_iff_le_not_ge, lt_iff_le_not_ge, within_le_iff, within_le_iff]

/-- Between two places of the part lie places of the part. -/
theorem exists_within (hc : c.within b a ≤ m) (hd : m ≤ d.within b a) :
    ∃ m', m = within b a m' ∧ c ≤ m' ∧ m' ≤ d := by
  obtain ⟨s, hs⟩ := hc
  obtain ⟨r, hr⟩ := hd
  have hm : m = within b a ⟨s.reverse ++ c.before, r ++ d.after⟩ := by
    obtain ⟨before, after⟩ := m
    obtain rfl : before = _ := hs.behind
    obtain rfl : after = _ := hr.ahead
    simp [within]
  rw [hm] at hs hr
  exact ⟨_, hm, (leads_within_iff.1 hs).le, (leads_within_iff.1 hr).le⟩

end

end Cursor

namespace Markup

open Cursor

/-! ### Scanners in a part of a text -/

section

variable {b a : Text} {c d : Cursor}

/-- A scope that ends in the part ends there for the part alone. -/
theorem closeFrom_scope_within_iff {delimiter : Script.Delimiter} {inner : Nat} :
    delimiter.closeFrom inner (c.within b a).before (c.within b a).after = some (d.within b a) ↔
      delimiter.closeFrom inner c.before c.after = some d := by
  obtain ⟨before, after⟩ := c
  induction after generalizing inner before with
  | nil =>
    constructor
    · intro h
      have hlt := within_lt_iff.1 (lt_of_closeScope h)
      exact absurd (nil_le_iff.1 hlt.le) hlt.ne'
    · rintro ⟨⟩
  | cons x xs ih =>
    rw [within_cons]
    unfold Script.Delimiter.closeFrom
    split
    · exact ih (x :: before)
    split
    · cases inner with
      | zero =>
        show some (within b a ⟨x :: before, xs⟩) = some _ ↔
          some (⟨x :: before, xs⟩ : Cursor) = some d
        rw [Option.some.injEq, Option.some.injEq, within_inj]
      | succ n => exact ih (x :: before)
    · exact ih (x :: before)

/-- A tag that ends in the part ends there for the part alone. -/
theorem closeFrom_tag_within_iff {name name' inner : Nat} :
    closeFrom name (.tag inner) (c.within b a).before (c.within b a).after = .ok (d.within b a) ↔
      closeFrom name' (.tag inner) c.before c.after = .ok d := by
  induction inner, c using tagReading_induction with
  | finish inner before =>
    constructor
    · intro h
      have hlt := within_lt_iff.1 (lt_of_closeFrom_eq_ok h)
      exact absurd (nil_le_iff.1 hlt.le) hlt.ne'
    · rintro ⟨⟩
  | close before xs =>
    show Except.ok (within b a ⟨'>' :: before, xs⟩) = .ok _ ↔ Except.ok ⟨'>' :: before, xs⟩ = .ok d
    rw [Except.ok.injEq, Except.ok.injEq, within_inj]
  | closeInner inner before xs ih => exact ih
  | openInner inner before xs ih =>
    rw [within_cons, closeFrom_tag_open, closeFrom_tag_open]
    exact ih
  | expression inner before xs e he ih =>
    have hwhole : Script.Delimiter.brace.closeFrom 0 ('\x7b' :: (before ++ b)) (xs ++ a) =
        some (e.within b a) :=
      (closeFrom_scope_within_iff (c := ⟨'\x7b' :: before, xs⟩)).2 he
    rw [within_cons, closeFrom_tag_brace, closeFrom_tag_brace, he, hwhole]
    exact ih
  | unclosed inner before xs he =>
    rw [within_cons, closeFrom_tag_brace, closeFrom_tag_brace, he]
    refine iff_of_false (fun h => ?_) (by simp)
    cases hwhole : Script.Delimiter.brace.closeFrom 0 ('\x7b' :: (before ++ b)) (xs ++ a) with
    | none => simp [hwhole] at h
    | some e =>
      rw [hwhole] at h
      -- the scope would end before the tag does, so in the part
      obtain ⟨e, rfl, -, -⟩ := exists_within (c := ⟨'\x7b' :: before, xs⟩)
        (lt_of_closeScope hwhole).le (lt_of_closeFrom_eq_ok h).le
      have hpart := (closeFrom_scope_within_iff (c := ⟨'\x7b' :: before, xs⟩)).1 hwhole
      simp [he] at hpart
  | other inner before x xs hx ih =>
    rw [within_cons, closeFrom_tag_other _ _ _ _ hx, closeFrom_tag_other _ _ _ _ hx]
    exact ih

/-- In front of a `>` of the part, names are the same for the part alone. -/
theorem startsWith_within {r u : Text} (hr : c.after = r ++ ['>']) (hu : '>' ∉ u) :
    (c.within b a).startsWith u = c.startsWith u := by
  rw [Bool.eq_iff_iff]
  simp only [startsWith, List.isPrefixOf_iff_prefix, within, hr]
  exact Text.prefix_concat_append_iff hu

/-- Behind a `<` of the part, what was read is the same for the part alone. -/
theorem isAfter_within {s u : Text} (hs : c.before = s ++ ['<']) (hu : '<' ∉ u) :
    (c.within b a).isAfter u = c.isAfter u := by
  rw [Bool.eq_iff_iff]
  simp only [Cursor.isAfter, List.isPrefixOf_iff_prefix, within, hs]
  exact Text.prefix_concat_append_iff (by simpa using hu)

theorem follows_commentEnd_within_iff {s : Text} (hs : c.before = s ++ ['<']) :
    Follows [commentEnd] (c.within b a) ↔ Follows [commentEnd] c := by
  simp only [Follows, List.mem_singleton, exists_eq_left]
  rw [isAfter_within hs (by decide)]

theorem exists_before_of_le {s : Text} (hs : c.before = s ++ ['<']) (h : c ≤ d) :
    ∃ t, d.before = t ++ ['<'] := by
  obtain ⟨r, hr⟩ := h
  exact ⟨r.reverse ++ s, by rw [hr.behind, hs, List.append_assoc]⟩

theorem closeComment_within_iff {s : Text} (hs : c.before = s ++ ['<']) :
    closeComment (c.within b a) = .ok (d.within b a) ↔ closeComment c = .ok d := by
  rw [closeComment_eq_ok_iff, closeComment_eq_ok_iff, endOf_eq_some_iff, endOf_eq_some_iff,
    within_le_iff]
  refine and_congr_right fun hcd => ?_
  have hfollows : ∀ {m}, c ≤ m → (Follows [commentEnd] (within b a m) ↔ Follows [commentEnd] m) :=
    fun hm => follows_commentEnd_within_iff (exists_before_of_le hs hm).choose_spec
  refine and_congr (hfollows hcd) ⟨fun h m hm hend => ?_, fun h m hm hend => ?_⟩
  · exact within_le_iff.1 (h _ (within_le_iff.2 hm) ((hfollows hm).2 hend))
  · rcases lt_or_le_of_le (within_le_iff.2 hcd) hm with hlt | hle
    · obtain ⟨m, rfl, hm, -⟩ := exists_within hm hlt.le
      exact within_le_iff.2 (h m hm ((hfollows hm).1 hend))
    · exact hle

/-- Tags and comments that end in the part end there for the part alone, if the
`<` before the name and a `>` behind it are in the part. -/
theorem closeTag_within_iff {s r : Text} (hs : c.before = s ++ ['<']) (hr : c.after = r ++ ['>']) :
    closeTag (c.within b a) = .ok (d.within b a) ↔ closeTag c = .ok d := by
  rw [closeTag, closeTag, startsWith_within hr (by decide)]
  split
  · exact closeComment_within_iff hs
  · exact closeFrom_tag_within_iff

end

/-! ### The scan in a part of a text -/

/-- A text from the `<` of a tag to a `>`. -/
def IsTagText (w : Text) : Prop := ∃ v, w = '<' :: (v ++ ['>'])

section

variable {b a : Text} {c d p : Cursor}

theorem IsTagText.exists_after (hw : IsTagText c.text) (hc : c.after ≠ []) :
    ∃ r, c.after = r ++ ['>'] := by
  obtain ⟨v, hv⟩ := hw
  obtain ⟨r, z, hr⟩ := List.eq_nil_or_concat c.after |>.resolve_left hc
  have htext : (c.before.reverse ++ r) ++ [z] = ('<' :: v) ++ ['>'] := by
    rw [List.append_assoc, ← List.concat_eq_append, ← hr]
    exact hv
  obtain ⟨-, hz⟩ := List.append_inj' htext rfl
  exact ⟨r, by rw [hr, List.concat_eq_append, hz]⟩

theorem IsTagText.exists_before (hw : IsTagText c.text) (hc : c.before ≠ []) :
    ∃ s, c.before = s ++ ['<'] := by
  obtain ⟨v, hv⟩ := hw
  obtain ⟨s, z, hs⟩ := List.eq_nil_or_concat c.before |>.resolve_left hc
  rw [text, hs, List.concat_eq_append, List.reverse_append] at hv
  obtain ⟨rfl, -⟩ := List.cons.inj hv
  exact ⟨s, by rw [hs, List.concat_eq_append]⟩

/-- The last word of the part that could be a style attribute. -/
def styleEnd : Text := "style>".toList

/-- An equals sign behind the part counts if only a `>` stands before it. -/
theorem assigned_append_iff (t a : Text) :
    assigned (t ++ ['>'] ++ a) = true ↔
      assigned (t ++ ['>']) = true ∨ t = [] ∧ a.head? = some '=' := by
  match t with
  | [] =>
    cases a with
    | nil => simp [assigned]
    | cons y a =>
      by_cases hy : y = '='
      · subst hy
        simp only [List.nil_append, List.cons_append, List.head?_cons, and_self, or_true, iff_true]
        rfl
      · simp [assigned, hy]
  | [x] =>
    by_cases hx : x = '='
    · subst hx
      simp [assigned]
    · simp [assigned, hx]
  | x :: y :: t =>
    have hlocal : ∀ u, assigned (x :: y :: u) = (x = '=' || y = '=' && x.utf8Size = 1) := by
      intro u
      by_cases hx : x = '=' <;> by_cases hy : y = '=' <;> simp [assigned, hx, hy]
    simp only [List.cons_append, hlocal]
    simp

theorem styleAt_within_iff {r : Text} (hr : c.after = r ++ ['>']) :
    StyleAt (c.within b a) ↔ StyleAt c ∨ c.after = styleEnd ∧ a.head? = some '=' := by
  rw [StyleAt, StyleAt, startsWith_within hr (by decide)]
  by_cases hstyle : c.startsWith styleName = true
  · have hprefix : styleName <+: r ++ ['>'] := hr ▸ List.isPrefixOf_iff_prefix.1 hstyle
    obtain ⟨t, rfl⟩ := Text.prefix_of_prefix_append_cons (by decide) hprefix
    rw [List.append_assoc] at hr
    have hdrop : (c.within b a).after.drop styleName.length = t ++ ['>'] ++ a := by
      rw [within, hr, List.append_assoc, List.drop_left]
    have hend : c.after = styleEnd ↔ t = [] := by
      rw [hr, show styleEnd = styleName ++ ['>'] from by decide, List.append_cancel_left_eq]
      simp
    rw [hdrop, hr, List.drop_left, assigned_append_iff, ← hr, hend]
    simp [hstyle]
  · have hne : c.after ≠ styleEnd := by
      intro h
      rw [startsWith, h] at hstyle
      exact hstyle (by decide)
    simp [hstyle, hne]

theorem outputNameAt_within_iff (hw : IsTagText c.text) (hc : c.after ≠ []) :
    OutputNameAt (c.within b a) ↔ OutputNameAt c := by
  obtain ⟨r, hr⟩ := hw.exists_after hc
  obtain ⟨before, after⟩ := c
  cases before with
  | nil =>
    -- the `<` of the tag is no name
    obtain ⟨v, rfl⟩ : ∃ v, after = '<' :: v := hw.imp' _ fun _ h => h
    refine iff_of_false (fun h => ?_) fun h => ?_
    · exact h.not_startsWith (s := ['<']) (by decide) (by decide) rfl
    · exact h.not_startsWith (s := ['<']) (by decide) (by decide) rfl
  | cons y before =>
    rw [OutputNameAt, OutputNameAt, startsWith_within hr (by decide)]
    exact Iff.rfl

theorem IsTagText.closeTag_within_iff (hw : IsTagText c.text) (hc : c.after ≠ [])
    (hname : OutputNameAt c) :
    closeTag (c.within b a) = .ok (d.within b a) ↔ closeTag c = .ok d := by
  obtain ⟨r, hr⟩ := hw.exists_after hc
  have hbefore : c.before ≠ [] := by
    intro h
    have hafter := hname.1
    rw [Cursor.isAfter, h] at hafter
    cases hafter
  obtain ⟨s, hs⟩ := hw.exists_before hbefore
  exact Markup.closeTag_within_iff hs hr

theorem length_after_le_of_le (h : c ≤ d) : d.after.length ≤ c.after.length := by
  obtain ⟨s, hs⟩ := h
  rw [hs.ahead, List.length_append]
  exact Nat.le_add_left _ _

theorem after_ne_nil_of_lt (h : c < d) : c.after ≠ [] := by
  obtain ⟨before, _ | ⟨x, xs⟩⟩ := c
  · exact absurd (nil_le_iff.1 h.le) h.ne'
  · exact List.cons_ne_nil x xs

/-- Where the scan of the whole text comes to a place of the part, so does the
scan of the part. -/
theorem StyleScan.exists_within {c₀ stop : Cursor} (h : StyleScan c₀ p) (hc : c₀ = c.within b a)
    (hw : IsTagText c.text) (hp : p ≤ stop.within b a) :
    ∃ q, p = q.within b a ∧ StyleScan c q := by
  induction h generalizing c with
  | here => exact ⟨c, hc, .here c⟩
  | @next before xs x p hstyle hname hrest ih =>
    have hlt : c.within b a < stop.within b a :=
      hc ▸ (lt_cons before x xs).trans_le (hrest.le.trans hp)
    have hne := after_ne_nil_of_lt (within_lt_iff.1 hlt)
    obtain ⟨r, hr⟩ := hw.exists_after hne
    obtain ⟨cb, ca⟩ := c
    obtain ⟨y, ys, rfl⟩ := List.exists_cons_of_ne_nil hne
    obtain ⟨rfl, hxs⟩ := Cursor.mk.inj hc
    obtain ⟨rfl, rfl⟩ := List.cons.inj hxs
    obtain ⟨q, hq, hscan⟩ := ih (c := ⟨x :: cb, ys⟩) rfl ((Leads.cons cb x ys).text_eq ▸ hw) hp
    refine ⟨q, hq, .next (fun hs => hstyle ?_) (fun hn => hname ?_) hscan⟩
    · exact (styleAt_within_iff hr).2 (.inl hs)
    · exact (outputNameAt_within_iff hw hne).2 hn
  | @output c₀ d p hname hclose hrest ih =>
    subst hc
    have hlt : c.within b a < d := hname.lt_of_closeTag hclose
    obtain ⟨d, rfl, hcd, -⟩ := Cursor.exists_within hlt.le (hrest.le.trans hp)
    have hne := after_ne_nil_of_lt (within_lt_iff.1 hlt)
    have hname' := (outputNameAt_within_iff hw hne).1 hname
    have hclose' := (hw.closeTag_within_iff hne hname').1 hclose
    obtain ⟨q, hq, hscan⟩ := ih rfl ((text_eq_of_le hcd) ▸ hw) hp
    exact ⟨q, hq, .output hname' hclose' hscan⟩

/-- Where the scan of the part comes to a place, so does the scan of the whole
text, unless too little of the part is left for a style attribute. -/
theorem StyleScan.within (h : StyleScan c p) (hw : IsTagText c.text)
    (hp : styleEnd.length ≤ p.after.length) : StyleScan (c.within b a) (p.within b a) := by
  induction h with
  | here c => exact .here _
  | @next before xs x p hstyle hname hrest ih =>
    obtain ⟨r, hr⟩ := hw.exists_after (List.cons_ne_nil x xs)
    refine .next (fun hs => ?_) (fun hn => hname ?_) (ih ((Leads.cons before x xs).text_eq ▸ hw) hp)
    · rcases (styleAt_within_iff (c := ⟨before, x :: xs⟩) hr).1 hs with hs | ⟨hend, -⟩
      · exact hstyle hs
      · -- the word has been begun
        have hlen := length_after_le_of_le hrest.le
        rw [← hend, List.length_cons] at hp
        exact absurd (Nat.le_trans hp hlen) (Nat.not_succ_le_self _)
    · exact (outputNameAt_within_iff hw (List.cons_ne_nil x xs)).1 hn
  | @output c d p hname hclose hrest ih =>
    have hne := after_ne_nil_of_lt (hname.lt_of_closeTag hclose)
    have hle := le_of_closeTag hclose
    exact .output ((outputNameAt_within_iff hw hne).2 hname)
      ((hw.closeTag_within_iff hne hname).2 hclose) (ih ((text_eq_of_le hle) ▸ hw) hp)

/-- A style attribute takes as much room as the last word that could be one. -/
theorem StyleAt.length_le (h : StyleAt c) : styleEnd.length ≤ c.after.length := by
  obtain ⟨hstyle, hassigned⟩ := h
  obtain ⟨t, ht⟩ := List.isPrefixOf_iff_prefix.1 hstyle
  rw [← ht, List.drop_left] at hassigned
  cases t with
  | nil => cases hassigned
  | cons y t =>
    have hlen : styleEnd.length = styleName.length + 1 := by decide
    rw [← ht, List.length_append, List.length_cons]
    omega

theorem decides_true_iff : Decides c (.ok true) ↔ StyleAt c := by
  refine ⟨fun h => ?_, .style⟩
  cases h with
  | style h => exact h

/-- The last word of a part is a style attribute by what is behind the part
only. -/
theorem styleAt_of_leads_styleEnd {stop : Cursor} (h : c.Leads styleEnd stop) :
    StyleAt c ↔ stop.after.head? = some '=' := by
  have hafter : c.after = styleName ++ (['>'] ++ stop.after) := h.ahead
  have hstyle : c.startsWith styleName = true := by
    rw [startsWith, hafter, List.isPrefixOf_iff_prefix]
    exact List.prefix_append _ _
  have hassigned := assigned_append_iff [] stop.after
  rw [StyleAt, hafter, List.drop_left]
  simpa [hstyle, assigned] using hassigned

/-- The scan comes to a style attribute whose equals sign is behind the stretch
that is scanned. -/
def Leaks (c stop : Cursor) : Prop :=
  stop.after.head? = some '=' ∧ ∃ p, StyleScan c p ∧ p.Leads styleEnd stop

/-- What the scan of the whole text finds in the part, the scan of the part
finds, or it leaks. -/
theorem settles_within_iff (stop : Cursor) (hw : IsTagText c.text) (hstop : stop.after = []) :
    Settles (stop.within b a) (c.within b a) (.ok true) ↔
      Settles stop c (.ok true) ∨ Leaks (c.within b a) (stop.within b a) := by
  simp only [Settles, decides_true_iff]
  constructor
  · rintro ⟨p, hscan, hlt, hstyle⟩
    obtain ⟨q, rfl, hscan'⟩ := hscan.exists_within rfl hw hlt.le
    have hlt' := within_lt_iff.1 hlt
    obtain ⟨r, hr⟩ := IsTagText.exists_after ((text_eq_of_le hscan'.le) ▸ hw)
      (after_ne_nil_of_lt hlt')
    rcases (styleAt_within_iff hr).1 hstyle with hstyle | ⟨hend, ha⟩
    · exact .inl ⟨q, hscan', hlt', hstyle⟩
    · have hleads : q.Leads styleEnd stop := by
        have hq := leads_upTo hlt'.le
        have hall := hq.ahead
        rw [hstop, List.append_nil, hend] at hall
        rwa [← hall] at hq
      exact .inr ⟨by rwa [Cursor.within, hstop], _, hscan, leads_within_iff.2 hleads⟩
  · rintro (⟨q, hscan, hlt, hstyle⟩ | ⟨ha, p, hscan, hend⟩)
    · obtain ⟨r, hr⟩ := IsTagText.exists_after ((text_eq_of_le hscan.le) ▸ hw)
        (after_ne_nil_of_lt hlt)
      exact ⟨_, hscan.within hw hstyle.length_le, within_lt_iff.2 hlt,
        (styleAt_within_iff hr).2 (.inl hstyle)⟩
    · exact ⟨p, hscan, hend.lt_iff.2 (by decide), (styleAt_of_leads_styleEnd hend).2 ha⟩

/-- A scan that leaks finds nothing in the part alone. -/
theorem Leaks.not_settles {stop : Cursor} (h : Leaks (c.within b a) (stop.within b a))
    (hw : IsTagText c.text) (hstop : stop.after = []) : ¬ Settles stop c (.ok true) := by
  rintro ⟨q, hscan, hlt, hdecides⟩
  have hstyle := decides_true_iff.1 hdecides
  obtain ⟨ha, p, hscan', hend⟩ := h
  obtain ⟨r, hr⟩ := IsTagText.exists_after ((text_eq_of_le hscan.le) ▸ hw)
    (after_ne_nil_of_lt hlt)
  have hwhole : Decides (q.within b a) (.ok true) :=
    .style ((styleAt_within_iff hr).2 (.inl hstyle))
  obtain rfl := hscan'.decides_unique (.style ((styleAt_of_leads_styleEnd hend).2 ha))
    (hscan.within hw hstyle.length_le) hwhole
  have hpart := (styleAt_of_leads_styleEnd (leads_within_iff.1 hend)).1 hstyle
  simp [hstop] at hpart

end

/-! ### The tag on its own -/

/-- The place at the end of a text. -/
def textStop (w : Text) : Cursor := ⟨w.reverse, []⟩

theorem leads_textStop (w : Text) : w.start.Leads w (textStop w) :=
  ⟨(List.append_nil w).symm, (List.append_nil w.reverse).symm⟩

theorem start_le_textStop (w : Text) : w.start ≤ textStop w := (leads_textStop w).le

/-- A text that is one tag is lexed as that tag, with nothing behind it. -/
theorem lex_of_closeTag {ignored : List Text} {w : Text} (htag : isTagStart w = true)
    (hname : elementAt ignored w.start.next = none)
    (hclose : closeTag w.start.next = .ok (textStop w)) :
    (lex ignored w).segments = [.tag w.start (textStop w), .text (textStop w) (textStop w)] ∧
      (lex ignored w).failure = none := by
  have hfirst : ∀ {start}, tagFrom w.start.before w.start.after = some start → start = w.start := by
    intro start hs
    obtain ⟨hle, -, hmin⟩ := tagFrom_eq_some_iff.1 hs
    exact le_antisymm (hmin _ le_rfl htag) hle
  have hread := reading_lex ignored w
  generalize (lex ignored w).segments = segments at hread ⊢
  generalize (lex ignored w).failure = failure at hread ⊢
  cases hread with
  | finish hs =>
    have hno : isTagStart w = false := tagFrom_eq_none_iff.1 hs _ le_rfl
    rw [hno] at htag
    cases htag
  | elementFails hs he | element hs he =>
    obtain rfl := hfirst hs
    simp [hname] at he
  | tagFails hs _ he =>
    obtain rfl := hfirst hs
    simp [hclose] at he
  | @tag _ start stop run rest _ hs _ hstop hrun hrest =>
    obtain rfl := hfirst hs
    obtain rfl := Except.ok.inj (hclose.symm.trans hstop)
    obtain rfl : textStop w = run := hrun
    have hnone : tagFrom (textStop w).before (textStop w).after = none := rfl
    cases hrest with
    | finish => exact ⟨rfl, rfl⟩
    | elementFails hs | element hs | tagFails hs | tag hs => simp [hnone] at hs

/-- Some inline style is found. -/
def ReportsStyle (w : Text) : Prop := ∃ found, inlineStyleTags w = .ok found ∧ found ≠ []

/-- On its own a tag is found if it is judged to have a style. -/
theorem reportsStyle_iff {w : Text} (htag : isTagStart w = true)
    (hname : elementAt scriptTags w.start.next = none)
    (hclose : closeTag w.start.next = .ok (textStop w)) :
    ReportsStyle w ↔ isStyled w.start (textStop w) = .ok true := by
  obtain ⟨hsegments, hfailure⟩ := lex_of_closeTag htag hname hclose
  have hrest : styledTags [.text (textStop w) (textStop w)] = .ok [] := rfl
  rw [ReportsStyle, inlineStyleTags_eq, hsegments, hfailure, styledTags_tag, hrest]
  -- a tag is not empty, and so it makes a violation
  have hne : w.start.upTo (textStop w) ≠ [] := by
    rw [(leads_textStop w).upTo_eq]
    rintro rfl
    cases htag
  obtain ⟨v, hv⟩ := Violation.exists_new hne w.start.offset
  have hone : [(w.start, textStop w)].mapM violationAt = .ok [v] := mapM_eq_ok_iff.2 (.cons hv .nil)
  cases isStyled w.start (textStop w) with
  | error e => simp
  | ok styled =>
    cases styled with
    | false => simp [pure, Except.pure]
    | true => exact ⟨fun _ => rfl, fun _ => ⟨[v], hone, List.cons_ne_nil v []⟩⟩

section

variable {start stop : Cursor}

theorem within_start {w : Text} (h : start.Leads w stop) :
    w.start.within start.before stop.after = start := by
  rw [Text.start, within, ← h.ahead, List.nil_append]

theorem within_textStop {w : Text} (h : start.Leads w stop) :
    (textStop w).within start.before stop.after = stop := by
  rw [textStop, within, ← h.behind, List.nil_append]

theorem of_mem_elementNames {name : Text} (h : name ∈ commentName :: scriptTags) : '>' ∉ name := by
  have hall : ∀ name ∈ commentName :: scriptTags, '>' ∉ name := by decide
  exact hall name h

theorem elementAt_within {b a r : Text} {c : Cursor} (hr : c.after = r ++ ['>']) :
    elementAt scriptTags (c.within b a) = elementAt scriptTags c := by
  rw [elementAt, elementAt, startsWith_within hr (of_mem_elementNames List.mem_cons_self)]
  congr 1
  exact List.find?_congr fun name h =>
    startsWith_within hr (of_mem_elementNames (List.mem_cons_of_mem _ h))

/-- The text of a tag goes from a tag start to a `>`. -/
theorem isTagText_of_leads {v : Text} (htag : isTagStart start.after = true)
    (h : start.Leads (v ++ ['>']) stop) :
    IsTagText (v ++ ['>']) ∧ isTagStart (v ++ ['>']) = true := by
  obtain ⟨x, xs, ha, hx⟩ := isTagStart_iff.1 htag
  rw [h.ahead] at ha
  cases v with
  | nil =>
    obtain ⟨hlt, -⟩ := List.cons.inj ha
    cases hlt
  | cons y v =>
    obtain ⟨rfl, hrest⟩ := List.cons.inj ha
    refine ⟨⟨v, rfl⟩, isTagStart_iff.2 ?_⟩
    cases v with
    | nil =>
      obtain ⟨rfl, -⟩ := List.cons.inj hrest
      exact ⟨'>', [], rfl, hx⟩
    | cons z v =>
      obtain ⟨rfl, -⟩ := List.cons.inj hrest
      exact ⟨z, v ++ ['>'], rfl, hx⟩

/-- The scan of a tag leaks. -/
def StyleLeaks (start stop : Cursor) : Prop :=
  ¬ start.next.startsWith outputTag = true ∧ Leaks start stop

/-- A tag is judged as on its own, unless its scan leaks. -/
theorem isStyled_iff_alone (htag : isTagStart start.after = true)
    (hname : elementAt scriptTags start.next = none) (hclose : closeTag start.next = .ok stop) :
    (isStyled start stop = .ok true ↔
      ReportsStyle (start.upTo stop) ∨ StyleLeaks start stop) ∧
    (StyleLeaks start stop → ¬ ReportsStyle (start.upTo stop)) := by
  have hlt : start < stop := (lt_next_of_isTagStart htag).trans_le (le_of_closeTag hclose)
  obtain ⟨v, hv⟩ := exists_leads_of_closeTag hclose hlt
  obtain ⟨hw, htag'⟩ := isTagText_of_leads htag hv
  rw [hv.upTo_eq]
  generalize v ++ ['>'] = w at hv hw htag'
  have hstart := within_start hv
  have hstop := within_textStop hv
  obtain ⟨u, rfl⟩ := hw
  have hnext : within start.before stop.after ⟨['<'], u ++ ['>']⟩ = start.next := by
    rw [← hstart]
    rfl
  have hname' : elementAt scriptTags ⟨['<'], u ++ ['>']⟩ = none := by
    rw [← elementAt_within (b := start.before) (a := stop.after) rfl, hnext]
    exact hname
  have hclose' : closeTag ⟨['<'], u ++ ['>']⟩ = .ok (textStop ('<' :: (u ++ ['>']))) := by
    rw [← closeTag_within_iff (b := start.before) (a := stop.after) (s := []) rfl rfl, hnext, hstop]
    exact hclose
  have houtput : startsWith ⟨['<'], u ++ ['>']⟩ outputTag = start.next.startsWith outputTag := by
    rw [← hnext, startsWith_within rfl (by decide)]
  have halone := isStyled_iff (start_le_textStop _) htag' (r := .ok true) (by simp)
  have hwhole := isStyled_iff hlt.le htag (r := .ok true) (by simp)
  have hsettles := settles_within_iff (b := start.before) (a := stop.after)
    (c := Text.start ('<' :: (u ++ ['>']))) (textStop ('<' :: (u ++ ['>']))) ⟨u, rfl⟩ rfl
  rw [hstart, hstop] at hsettles
  rw [reportsStyle_iff htag' hname' hclose', halone, hwhole, hsettles, StyleLeaks, ← houtput]
  refine ⟨and_or_left, fun hleaks h => ?_⟩
  have hleak := hleaks.2
  rw [← hstart, ← hstop] at hleak
  exact hleak.not_settles ⟨u, rfl⟩ rfl h.2

/-- A tag of a template is found if it is judged to have a style. -/
theorem exists_violation_iff {text : Text} {found : List Violation}
    (hok : inlineStyleTags text = .ok found)
    (hs : .tag start stop ∈ (lex scriptTags text).segments) :
    (∃ v ∈ found, v.Marks (start.upTo stop) start.offset) ↔ isStyled start stop = .ok true := by
  have hread := reading_lex scriptTags text
  rw [inlineStyleTags_eq] at hok
  rcases styledTags_cases (lex scriptTags text).segments with ⟨e, -, -, he, -⟩ | ⟨tags, htags, hiff⟩
  · simp [he] at hok
  cases hf : (lex scriptTags text).failure with
  | some e => simp [htags, hf] at hok
  | none =>
    have hfound : tags.mapM violationAt = .ok found := by simpa only [htags, hf] using hok
    constructor
    · rintro ⟨v, hv, hmarks⟩
      obtain ⟨⟨a, b⟩, hab, hmarks'⟩ := (mem_violationsAt_iff hfound).1 hv
      obtain ⟨hmem, hstyled⟩ := (hiff a b).1 hab
      -- tags that begin at one place are one tag
      have htext : a.text = start.text :=
        (text_eq_of_le (hread.ahead hmem).1).trans (text_eq_of_le (hread.ahead hs).1).symm
      obtain rfl := eq_of_offset_eq htext (hmarks'.offset_eq.symm.trans hmarks.offset_eq)
      have hb := (hread.closeTag_of_mem hmem).2.2
      rw [(hread.closeTag_of_mem hs).2.2] at hb
      obtain rfl := Except.ok.inj hb
      exact hstyled
    · exact fun hstyled => exists_violation_of_mem hfound ((hiff start stop).2 ⟨hs, hstyled⟩)

/-- **A tag is found as it is on its own**, unless its scan leaks: then a tag
that ends in `style>` is found for the equals sign behind it, and it is not found
on its own. -/
theorem inlineStyle_iff_alone {text : Text} {found : List Violation}
    (hok : inlineStyleTags text = .ok found) {start stop : Cursor}
    (hs : .tag start stop ∈ (lex scriptTags text).segments) :
    ((∃ v ∈ found, v.Marks (start.upTo stop) start.offset) ↔
      ReportsStyle (start.upTo stop) ∨ StyleLeaks start stop) ∧
    (StyleLeaks start stop → ¬ ReportsStyle (start.upTo stop)) := by
  obtain ⟨htag, hname, hclose⟩ := (reading_lex scriptTags text).closeTag_of_mem hs
  rw [exists_violation_iff hok hs]
  exact isStyled_iff_alone htag hname hclose

/-- A tag with a style of its own behind an output tag. -/
theorem inlineStyle_iff_alone_nested :
    inlineStyleTags "x<p a='<isprint b>' style='c'>y".toList =
        .ok [⟨"<p a='<isprint b>' style='c'>".toList, 1, none, by decide⟩] ∧
      ReportsStyle "<p a='<isprint b>' style='c'>".toList := by
  have hok : inlineStyleTags "x<p a='<isprint b>' style='c'>y".toList =
      .ok [⟨"<p a='<isprint b>' style='c'>".toList, 1, none, by decide⟩] := by decide +kernel
  have hs : .tag ⟨['x'], "<p a='<isprint b>' style='c'>y".toList⟩
      ⟨"x<p a='<isprint b>' style='c'>".toList.reverse, ['y']⟩ ∈
        (lex scriptTags "x<p a='<isprint b>' style='c'>y".toList).segments := by
    decide +kernel
  obtain ⟨hiff, -⟩ := inlineStyle_iff_alone hok hs
  rcases hiff.1 ⟨_, List.mem_singleton_self _, rfl, rfl, rfl⟩ with halone | ⟨-, hbehind, -⟩
  · exact ⟨hok, halone⟩
  · exact absurd hbehind (by decide)

/-- A tag that ends in `style>` and has an equals sign behind it. -/
theorem inlineStyle_not_alone :
    inlineStyleTags "<p style>= 1</p>".toList = .ok [⟨"<p style>".toList, 0, none, by decide⟩] ∧
    .tag ⟨[], "<p style>= 1</p>".toList⟩ ⟨"<p style>".toList.reverse, "= 1</p>".toList⟩ ∈
      (lex scriptTags "<p style>= 1</p>".toList).segments ∧
    inlineStyleTags "<p style>".toList = .ok [] := by
  decide +kernel

end

end Markup

end CartridgeAudit
