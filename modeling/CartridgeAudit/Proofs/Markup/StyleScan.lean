/-
CartridgeAudit/Proofs/Markup/StyleScan.lean

The scan of a tag for a style attribute, and where it fails.

A tag that has been read is scanned once more.  The scan goes from character to
character and over each output tag as a whole (`StyleScan`), up to a place that
decides: a style attribute, or an output tag without an end (`Decides`).  The
search for that end begins anew behind the output tag's `<`, and it is not held
to the tag that is scanned.  `StyleReading` says what one step of the scan can
do, and from it the verdict on a tag is the deciding place that the scan comes
to first (`isStyled_iff`).

Reading the tag passes over comments and expressions, the scan does not.
Everywhere else a `<` in the tag begins a tag that the grammar derives, so there
the scan cannot fail (`TagSpan.exists_of_scans`).

Main result: `inlineStyleTags_fails_iff`.
-/
import CartridgeAudit.Proofs.Markup.Finding
import CartridgeAudit.Proofs.Markup.TagGrammar

namespace CartridgeAudit.Markup

open Cursor

/-! ### Places of the scan -/

/-- A style attribute begins here. -/
def StyleAt (c : Cursor) : Prop :=
  c.startsWith styleName = true ∧ assigned (c.after.drop styleName.length) = true

/-- The name of an output tag begins here. -/
def OutputNameAt (c : Cursor) : Prop := c.isAfter ['<'] = true ∧ c.startsWith outputTag = true

instance (c : Cursor) : Decidable (StyleAt c) := inferInstanceAs (Decidable (_ ∧ _))

instance (c : Cursor) : Decidable (OutputNameAt c) := inferInstanceAs (Decidable (_ ∧ _))

/-- The scan comes from one place to another. -/
inductive StyleScan : Cursor → Cursor → Prop
  | here (c : Cursor) : StyleScan c c
  | next {before xs : Text} {x : Char} {p : Cursor} :
      ¬ StyleAt ⟨before, x :: xs⟩ → ¬ OutputNameAt ⟨before, x :: xs⟩ →
      StyleScan ⟨x :: before, xs⟩ p → StyleScan ⟨before, x :: xs⟩ p
  | output {c d p : Cursor} :
      OutputNameAt c → closeTag c = .ok d → StyleScan d p → StyleScan c p

/-- At this place the scan gives its verdict. -/
inductive Decides (c : Cursor) : Except ScanError Bool → Prop
  | style : StyleAt c → Decides c (.ok true)
  | unclosed {e : ScanError} : OutputNameAt c → closeTag c = .error e → Decides c (.error e)

/-- What the scan up to a place gives. -/
inductive StyleReading (stop : Cursor) : Cursor → Except ScanError Bool → Prop
  | finish {c : Cursor} : stop ≤ c → StyleReading stop c (.ok false)
  | decide {c : Cursor} {r : Except ScanError Bool} :
      c < stop → Decides c r → StyleReading stop c r
  | output {c d : Cursor} {r : Except ScanError Bool} :
      c < stop → OutputNameAt c → closeTag c = .ok d → StyleReading stop d r →
      StyleReading stop c r
  | pass {before xs : Text} {x : Char} {r : Except ScanError Bool} :
      ⟨before, x :: xs⟩ < stop → ¬ StyleAt ⟨before, x :: xs⟩ →
      ¬ OutputNameAt ⟨before, x :: xs⟩ → StyleReading stop ⟨x :: before, xs⟩ r →
      StyleReading stop ⟨before, x :: xs⟩ r

/-! ### The scan and its steps -/

/-- Words that begin at one place begin alike. -/
theorem head?_eq_of_startsWith {c : Cursor} {s t : Text} (hs : c.startsWith s = true)
    (ht : c.startsWith t = true) (hne : s ≠ []) (hne' : t ≠ []) : s.head? = t.head? := by
  obtain ⟨x, s, rfl⟩ := List.exists_cons_of_ne_nil hne
  obtain ⟨y, t, rfl⟩ := List.exists_cons_of_ne_nil hne'
  obtain ⟨r, hr⟩ := List.isPrefixOf_iff_prefix.1 hs
  obtain ⟨r', hr'⟩ := List.isPrefixOf_iff_prefix.1 ht
  obtain ⟨rfl, -⟩ := List.cons.inj (hr.trans hr'.symm)
  rfl

/-- At an output tag's name no other name begins. -/
theorem OutputNameAt.not_startsWith {c : Cursor} (h : OutputNameAt c) {s : Text} (hne : s ≠ [])
    (hs : s.head? ≠ outputTag.head?) : ¬ c.startsWith s = true := fun hstart =>
  hs (head?_eq_of_startsWith hstart h.2 hne (by decide))

theorem OutputNameAt.not_styleAt {c : Cursor} (h : OutputNameAt c) : ¬ StyleAt c := fun hstyle =>
  h.not_startsWith (s := styleName) (by decide) (by decide) hstyle.1

/-- An output tag is no comment, so it is read as tags are. -/
theorem OutputNameAt.closeTag_eq {c : Cursor} (h : OutputNameAt c) :
    closeTag c = closeFrom c.offset (.tag 0) c.before c.after :=
  if_neg (h.not_startsWith (by decide) (by decide))

theorem OutputNameAt.lt_of_closeTag {c d : Cursor} (h : OutputNameAt c)
    (hclose : closeTag c = .ok d) : c < d :=
  lt_of_closeFrom_eq_ok (h.closeTag_eq ▸ hclose)

/-- The characters of an output tag are passed over. -/
theorem hasInlineStyle_of_leads {n : Nat} {moved : Bool} {c d : Cursor} {s : Text}
    (h : c.Leads s d) (hmoved : s = [] → moved = true) :
    hasInlineStyle n s.length moved c = hasInlineStyle (n - s.length) 0 true d := by
  induction s generalizing n moved c with
  | nil =>
    obtain rfl := leads_nil_iff.1 h
    rw [hmoved rfl]
    rfl
  | cons x s ih =>
    obtain ⟨before, after⟩ := c
    obtain ⟨xs, rfl, hrest⟩ := leads_cons_iff.1 h
    cases n with
    | zero => rw [Nat.zero_sub, hasInlineStyle, hasInlineStyle]
    | succ n =>
      rw [List.length_cons, hasInlineStyle, Nat.add_sub_add_right]
      exact ih hrest fun _ => rfl

/-- In a stretch without characters there is no style attribute. -/
theorem hasInlineStyle_zero (skip : Nat) (moved : Bool) (c : Cursor) :
    hasInlineStyle 0 skip moved c = .ok false := by
  rw [hasInlineStyle]

/-- One step of the scan.  At the first character of all an output tag's name is
not looked for. -/
theorem hasInlineStyle_cons (n : Nat) (moved : Bool) {before xs : Text} {x : Char}
    (hmoved : OutputNameAt ⟨before, x :: xs⟩ → moved = true) :
    hasInlineStyle (n + 1) 0 moved ⟨before, x :: xs⟩ =
      if StyleAt ⟨before, x :: xs⟩ then .ok true
      else if OutputNameAt ⟨before, x :: xs⟩ then
        match closeTag ⟨before, x :: xs⟩ with
        | .error e => .error e
        | .ok d => hasInlineStyle n (distance ⟨before, x :: xs⟩ d - 1) true ⟨x :: before, xs⟩
      else hasInlineStyle n 0 true ⟨x :: before, xs⟩ := by
  rw [hasInlineStyle]
  by_cases hstyle : StyleAt ⟨before, x :: xs⟩
  · rw [if_pos hstyle.1, if_pos hstyle.2, if_pos hstyle]
  rw [if_neg hstyle]
  by_cases hname : OutputNameAt ⟨before, x :: xs⟩
  · have hno : ¬ startsWith ⟨before, x :: xs⟩ styleName = true :=
      hname.not_startsWith (by decide) (by decide)
    have htest : (moved && Cursor.isAfter ⟨before, x :: xs⟩ ['<'] &&
        startsWith ⟨before, x :: xs⟩ outputTag) = true := by
      rw [hmoved hname, hname.1, hname.2]
      rfl
    rw [if_neg hno, if_pos htest, if_pos hname]
    cases closeTag ⟨before, x :: xs⟩ <;> rfl
  · have htest : (moved && Cursor.isAfter ⟨before, x :: xs⟩ ['<'] &&
        startsWith ⟨before, x :: xs⟩ outputTag) = false := by
      rw [OutputNameAt] at hname
      grind
    rw [if_neg hname, htest]
    split
    · next hs =>
      rw [if_neg fun ha => hstyle ⟨hs, ha⟩]
      rfl
    · rfl

/-- Behind an output tag what is left of the stretch is scanned, if anything. -/
theorem hasInlineStyle_behind {before xs t : Text} {y : Char} {d stop : Cursor}
    (ht : Leads ⟨y :: before, xs⟩ t stop) (hd : ⟨before, y :: xs⟩ < d) :
    hasInlineStyle t.length (distance ⟨before, y :: xs⟩ d - 1) true ⟨y :: before, xs⟩ =
      hasInlineStyle (d.distance stop) 0 true d := by
  obtain ⟨s, hs⟩ := cons_lt_iff.1 hd
  have hskip : distance ⟨before, y :: xs⟩ d = s.length + 1 :=
    ((Leads.cons before y xs).trans hs).distance_eq
  have hleft : t.length - s.length = d.distance stop := by
    simp only [distance, ht.behind, hs.behind, List.length_append, List.length_reverse,
      List.length_cons]
    omega
  rw [hskip, Nat.add_sub_cancel, hasInlineStyle_of_leads hs fun _ => rfl, hleft]

/-- The scan of the characters up to a place is a reading. -/
theorem styleReading {c stop : Cursor} (htext : c.text = stop.text) (moved : Bool)
    (hmoved : OutputNameAt c → moved = true) :
    StyleReading stop c (hasInlineStyle (c.distance stop) 0 moved c) := by
  induction hn : c.after.length using Nat.strongRecOn generalizing c moved with
  | _ n ih =>
    rcases (le_total_of_text_eq htext.symm) with hge | hle
    · have hzero : c.distance stop = 0 := by
        obtain ⟨s, hs⟩ := hge
        simp only [distance, hs.behind, List.length_append]
        omega
      rw [hzero, hasInlineStyle_zero]
      exact .finish hge
    rcases hle.eq_or_lt with rfl | hlt
    · rw [(Leads.refl c).distance_eq, List.length_nil, hasInlineStyle_zero]
      exact .finish le_rfl
    obtain ⟨t, ht⟩ := hle
    obtain ⟨y, t, rfl⟩ := List.exists_cons_of_ne_nil (ht.lt_iff.1 hlt)
    obtain ⟨before, after⟩ := c
    obtain ⟨xs, rfl, hrest⟩ := leads_cons_iff.1 ht
    have hxs : xs.length < n := hn ▸ Nat.lt_succ_self _
    rw [ht.distance_eq, List.length_cons, hasInlineStyle_cons _ _ hmoved]
    split
    · next hstyle => exact .decide hlt (.style hstyle)
    split
    · next hstyle hname =>
      cases hclose : closeTag ⟨before, y :: xs⟩ with
      | error e => exact .decide hlt (.unclosed hname hclose)
      | ok d =>
        have hcd := hname.lt_of_closeTag hclose
        obtain ⟨s, hs⟩ := cons_lt_iff.1 hcd
        have hshort : d.after.length < n := by
          have hahead : xs.length = (s ++ d.after).length := congrArg List.length hs.ahead
          rw [List.length_append] at hahead
          omega
        show StyleReading stop _ (hasInlineStyle t.length _ true _)
        rw [hasInlineStyle_behind hrest hcd]
        exact .output hlt hname hclose (ih _ hshort ((text_eq_of_le hcd.le).trans htext) true
          (fun _ => rfl) rfl)
    · next hstyle hname =>
      rw [← hrest.distance_eq]
      exact .pass hlt hstyle hname (ih _ hxs hrest.text_eq.symm true (fun _ => rfl) rfl)

/-! ### The verdict on a tag -/

section

variable {c d p stop : Cursor} {r r' : Except ScanError Bool}

theorem StyleScan.le (h : StyleScan c p) : c ≤ p := by
  induction h with
  | here c => exact le_rfl
  | @next before xs x p _ _ _ ih => exact (lt_cons before x xs).le.trans ih
  | output _ hclose _ ih => exact (le_of_closeTag hclose).trans ih

theorem Decides.unique (h : Decides c r) (h' : Decides c r') : r = r' := by
  cases h with
  | style hstyle =>
    cases h' with
    | style => rfl
    | unclosed hname => exact absurd hstyle hname.not_styleAt
  | unclosed hname hclose =>
    cases h' with
    | style hstyle => exact absurd hstyle hname.not_styleAt
    | unclosed _ hclose' => exact congrArg _ (Except.error.inj (hclose.symm.trans hclose'))

/-- The scan does not go on from a place that decides. -/
theorem Decides.scan_iff (h : Decides c r) : StyleScan c p ↔ p = c := by
  constructor
  · intro hscan
    cases hscan with
    | here => rfl
    | next hstyle hname =>
      cases h with
      | style hs => exact absurd hs hstyle
      | unclosed hn => exact absurd hn hname
    | output hname hclose =>
      cases h with
      | style hs => exact absurd hs hname.not_styleAt
      | unclosed _ he => simp [hclose] at he
  · rintro rfl
    exact .here p

/-- From an output tag's name the scan goes on behind the tag. -/
theorem OutputNameAt.scan_iff (h : OutputNameAt c) (hclose : closeTag c = .ok d) :
    StyleScan c p ↔ p = c ∨ StyleScan d p := by
  constructor
  · intro hscan
    cases hscan with
    | here => exact .inl rfl
    | next _ hname => exact absurd h hname
    | output _ hclose' hrest =>
      obtain rfl := Except.ok.inj (hclose.symm.trans hclose')
      exact .inr hrest
  · rintro (rfl | hrest)
    · exact .here p
    · exact .output h hclose hrest

/-- From any other place it goes on behind the next character. -/
theorem styleScan_cons_iff {before xs : Text} {x : Char} (hstyle : ¬ StyleAt ⟨before, x :: xs⟩)
    (hname : ¬ OutputNameAt ⟨before, x :: xs⟩) :
    StyleScan ⟨before, x :: xs⟩ p ↔ p = ⟨before, x :: xs⟩ ∨ StyleScan ⟨x :: before, xs⟩ p := by
  constructor
  · intro hscan
    cases hscan with
    | here => exact .inl rfl
    | next _ _ hrest => exact .inr hrest
    | output hname' => exact absurd hname' hname
  · rintro (rfl | hrest)
    · exact .here _
    · exact .next hstyle hname hrest

/-- A scan comes to at most one place that decides. -/
theorem StyleScan.decides_unique (h : StyleScan c p) (hp : Decides p r) {q : Cursor}
    (h' : StyleScan c q) (hq : Decides q r') : p = q := by
  induction h with
  | here => exact (hp.scan_iff.1 h').symm
  | next hstyle hname _ ih =>
    rcases (styleScan_cons_iff hstyle hname).1 h' with rfl | h'
    · cases hq with
      | style hs => exact absurd hs hstyle
      | unclosed hn => exact absurd hn hname
    · exact ih hp h'
  | output hname hclose _ ih =>
    rcases (hname.scan_iff hclose).1 h' with rfl | h'
    · cases hq with
      | style hs => exact absurd hs hname.not_styleAt
      | unclosed _ he => simp [hclose] at he
    · exact ih hp h'

/-- The scan up to a place comes to one that decides. -/
def Settles (stop c : Cursor) (r : Except ScanError Bool) : Prop :=
  ∃ p, StyleScan c p ∧ p < stop ∧ Decides p r

theorem StyleReading.eq_iff (h : StyleReading stop c r) (hr : r' ≠ .ok false) :
    r = r' ↔ Settles stop c r' := by
  induction h with
  | finish hle =>
    refine ⟨fun heq => absurd heq.symm hr, ?_⟩
    rintro ⟨p, hscan, hlt, -⟩
    exact absurd (hle.trans hscan.le) hlt.not_ge
  | decide hlt hdecides =>
    constructor
    · rintro rfl
      exact ⟨_, .here _, hlt, hdecides⟩
    · rintro ⟨p, hscan, -, hp⟩
      obtain rfl := hdecides.scan_iff.1 hscan
      exact hdecides.unique hp
  | @output c d r _ hname hclose _ ih =>
    have hno : ¬ Decides c r' := by
      rintro (hstyle | ⟨-, he⟩)
      · exact hname.not_styleAt hstyle
      · simp [hclose] at he
    rw [ih]
    simp only [Settles, hname.scan_iff hclose, or_and_right, exists_or, exists_eq_left]
    simp [hno]
  | @pass before xs x r _ hstyle hname _ ih =>
    have hno : ¬ Decides ⟨before, x :: xs⟩ r' := by
      rintro (hs | ⟨hn, -⟩)
      · exact hstyle hs
      · exact hname hn
    rw [ih]
    simp only [Settles, styleScan_cons_iff hstyle hname, or_and_right, exists_or, exists_eq_left]
    simp [hno]

/-- **The verdict on a tag** is given at the first place that decides.  The
content of an output tag is not scanned. -/
theorem isStyled_iff {start : Cursor} (hle : start ≤ stop) (htag : isTagStart start.after = true)
    (hr : r ≠ .ok false) :
    isStyled start stop = r ↔ ¬ start.next.startsWith outputTag = true ∧ Settles stop start r := by
  rw [isStyled]
  split
  · next hname => simp [hname, hr.symm]
  · next hname =>
    have hno : ¬ OutputNameAt start := by
      rintro ⟨-, hstart⟩
      obtain ⟨x, xs, ha, -⟩ := isTagStart_iff.1 htag
      rw [startsWith, ha] at hstart
      obtain ⟨hx, -⟩ := List.cons_prefix_cons.1 (List.isPrefixOf_iff_prefix.1 hstart)
      cases hx
    have hread := styleReading (text_eq_of_le hle).symm false (absurd · hno)
    simp [hread.eq_iff hr, hname]

end

/-! ### Places in a tag -/

section

variable {text : Text} {i q e : Nat}

/-- A byte offset lies in an expression that the scan for a tag's end passes
over. -/
def InExpression (text : Text) (i q : Nat) : Prop :=
  ∃ o j, Scans text i o ∧ text.byteAt? o = some '\x7b'.toUInt8 ∧
    Script.scopeEnd text o = .ok j ∧ o < q ∧ q < j

theorem Scans.trans {j : Nat} (h : Scans text i j) (h' : Scans text j q) : Scans text i q := by
  induction h with
  | here => exact h'
  | next hb hbrace _ ih => exact .next hb hbrace (ih h')
  | scope hb hj _ ih => exact .scope hb hj (ih h')

theorem Scans.inExpression {j : Nat} (h : Scans text i j) (h' : InExpression text j q) :
    InExpression text i q := by
  obtain ⟨o, k, hscan, hrest⟩ := h'
  exact ⟨o, k, h.trans hscan, hrest⟩

/-- The scan for the end of a tag comes to it. -/
theorem TagSpan.scans (h : TagSpan text i e) : Scans text i e := by
  induction h with
  | close hb => exact .next hb (by decide) (.here _)
  | skip hb _ _ hbrace _ ih => exact .next hb hbrace ih
  | scope hb hj _ ih => exact .scope hb hj ih
  | nest hb _ _ ih₁ ih₂ => exact .next hb (by decide) (ih₁.trans ih₂)

/-- The scan for the end of a tag comes to a place in it, and if a `<` stands
there, then behind it the grammar derives a tag.  Or the place is in an
expression. -/
theorem TagSpan.scans_or_inExpression (h : TagSpan text i e) (hi : i ≤ q) (hq : q < e) :
    (Scans text i q ∧
      (text.byteAt? q = some '<'.toUInt8 → ∃ m, TagSpan text (q + 1) m)) ∨
    InExpression text i q := by
  induction h with
  | @close i hb =>
    obtain rfl : q = i := by omega
    exact .inl ⟨.here q, fun hlt => absurd (hb.symm.trans hlt) (by decide)⟩
  | @skip i e b hb hlt _ hbrace _ ih =>
    rcases Nat.eq_or_lt_of_le hi with rfl | hi
    · exact .inl ⟨.here i, fun hb' => absurd (Option.some.inj (hb.symm.trans hb')) hlt⟩
    · have hone : Scans text i (i + 1) := .next hb hbrace (.here _)
      exact (ih hi hq).imp (fun h => ⟨hone.trans h.1, h.2⟩) hone.inExpression
  | @scope i j e hb hj _ ih =>
    rcases Nat.eq_or_lt_of_le hi with rfl | hi
    · exact .inl ⟨.here i, fun hlt => absurd (hb.symm.trans hlt) (by decide)⟩
    rcases Nat.lt_or_ge q j with hqj | hqj
    · exact .inr ⟨i, j, .here i, hb, hj, hi, hqj⟩
    · have hscope : Scans text i j := .scope hb hj (.here j)
      exact (ih hqj hq).imp (fun h => ⟨hscope.trans h.1, h.2⟩) hscope.inExpression
  | @nest i m e hb h₁ _ ih₁ ih₂ =>
    have hone : Scans text i (i + 1) := .next hb (by decide) (.here _)
    rcases Nat.eq_or_lt_of_le hi with rfl | hi
    · exact .inl ⟨.here i, fun _ => ⟨m, h₁⟩⟩
    -- in the inner tag, or in what is left of the outer one behind it
    rcases Nat.lt_or_ge q m with hqm | hqm
    · exact (ih₁ hi hqm).imp (fun h => ⟨hone.trans h.1, h.2⟩) hone.inExpression
    · have hinner : Scans text i m := hone.trans h₁.scans
      exact (ih₂ hqm hq).imp (fun h => ⟨hinner.trans h.1, h.2⟩) hinner.inExpression

end

/-! ### Failures -/

/-- The scan of a tag comes to an output tag without an end. -/
structure StyleFailsAt (start stop p : Cursor) : Prop where
  not_output : ¬ start.next.startsWith outputTag = true
  scan : StyleScan start p
  lt_stop : p < stop
  name : OutputNameAt p
  unclosed : ∃ e, closeTag p = .error e

theorem isStyled_fails_iff {start stop : Cursor} (hle : start ≤ stop)
    (htag : isTagStart start.after = true) :
    (∃ e, isStyled start stop = .error e) ↔ ∃ p, StyleFailsAt start stop p := by
  constructor
  · rintro ⟨e, he⟩
    obtain ⟨hno, p, hscan, hlt, hp⟩ := (isStyled_iff hle htag (by simp)).1 he
    cases hp with
    | unclosed hname hclose => exact ⟨p, hno, hscan, hlt, hname, e, hclose⟩
  · rintro ⟨p, hno, hscan, hlt, hname, e, hclose⟩
    exact ⟨e, (isStyled_iff hle htag (by simp)).2 ⟨hno, p, hscan, hlt, .unclosed hname hclose⟩⟩

/-- The `<` before the place is not that of the scanned tag. -/
theorem StyleFailsAt.exists_before {start stop p : Cursor} (h : StyleFailsAt start stop p)
    (htag : isTagStart start.after = true) :
    ∃ m : Cursor, m.Leads ['<'] p ∧ start.next ≤ m := by
  obtain ⟨x, xs, hstart, hnext, -⟩ := next_eq_of_isTagStart htag
  have hle : start.next ≤ p := by
    have hscan := h.scan.le
    rw [hstart] at hscan
    rcases cons_le_iff.1 hscan with rfl | hscan
    · exact absurd rfl (h.name.not_startsWith (s := ['<']) (by decide) (by decide))
    · rwa [hnext]
  have hne : start.next ≠ p := by
    rintro rfl
    exact h.not_output h.name.2
  obtain ⟨s, hs⟩ := hle
  obtain ⟨s, z, rfl⟩ := List.eq_nil_or_concat s |>.resolve_left
    (hs.lt_iff.1 (lt_of_le_of_ne hs.le hne))
  rw [List.concat_eq_append] at hs
  obtain ⟨m, hm, hz⟩ := hs.exists_between
  obtain ⟨b, hb⟩ := List.isPrefixOf_iff_prefix.1 h.name.1
  obtain ⟨rfl, -⟩ := List.cons.inj (hb.trans hz.behind)
  exact ⟨m, hz, hm.le⟩

/-- The scan fails only where the reading of the tag has not looked for tags: in
a comment, or in an expression. -/
theorem StyleFailsAt.hidden {start stop p : Cursor} (h : StyleFailsAt start stop p)
    (htag : isTagStart start.after = true) (hclose : closeTag start.next = .ok stop) :
    start.next.startsWith commentName = true ∨
      InExpression start.text start.next.offset p.prev.offset := by
  by_cases hcomment : start.next.startsWith commentName = true
  · exact .inl hcomment
  refine .inr ?_
  obtain ⟨m, hm, hle⟩ := h.exists_before htag
  have hspan : TagSpan start.next.text start.next.offset stop.offset := by
    rw [closeTag, if_neg hcomment] at hclose
    exact tagSpans_one_iff.1 ((closeFrom_eq_ok_iff _ 0 start.next _).1 (by rw [hclose]; rfl))
  have hlt := offset_lt_of_lt ((hm.lt_iff.2 (by simp)).trans h.lt_stop)
  rw [hm.prev_eq, ← text_next]
  refine (hspan.scans_or_inExpression (offset_le_of_le hle) hlt).resolve_left ?_
  rintro ⟨-, hnest⟩
  -- the grammar derives a tag here, so its end is found
  have htext : start.next.text = m.text := (text_eq_of_le hle).symm
  have hbyte : start.next.text.byteAt? m.offset = some '<'.toUInt8 := by
    rw [htext, Text.byteAt?_eq_ascii_iff_cursor (by decide)]
    exact ⟨m, rfl, rfl, by rw [hm.ahead]; rfl⟩
  obtain ⟨e, he⟩ := hnest hbyte
  have ho : m.offset + 1 = p.offset := hm.offset_eq.symm
  rw [htext, ← hm.text_eq, ho, ← tagSpans_one_iff, ← closeFrom_eq_ok_iff p.offset 0 p] at he
  obtain ⟨err, herr⟩ := h.unclosed
  rw [h.name.closeTag_eq] at herr
  rw [herr] at he
  cases he

/-- **The finder of inline styles fails** where reading the template does, and
also on templates that are read: where the scan of a tag comes to an output tag
without an end.  Such an output tag stands in a comment or in an expression. -/
theorem inlineStyleTags_fails_iff (text : Text) :
    ((∃ e, inlineStyleTags text = .error e) ↔
      (lex scriptTags text).failure ≠ none ∨
        ∃ start stop p, .tag start stop ∈ (lex scriptTags text).segments ∧
          StyleFailsAt start stop p) ∧
    ∀ start stop p, .tag start stop ∈ (lex scriptTags text).segments →
      StyleFailsAt start stop p →
      start.next.startsWith commentName = true ∨
        InExpression text start.next.offset p.prev.offset := by
  have hread := reading_lex scriptTags text
  have htags : ∀ {start stop}, .tag start stop ∈ (lex scriptTags text).segments →
      ((∃ e, isStyled start stop = .error e) ↔ ∃ p, StyleFailsAt start stop p) := fun hs =>
    isStyled_fails_iff (hread.ahead hs).2 (hread.closeTag_of_mem hs).1
  refine ⟨?_, ?_⟩
  · rw [inlineStyleTags_eq]
    rcases styledTags_cases (lex scriptTags text).segments with
      ⟨e, start, stop, he, hs, hbad⟩ | ⟨found, hfound, hiff⟩
    · obtain ⟨p, hp⟩ := (htags hs).1 ⟨e, hbad⟩
      simp only [he]
      exact ⟨fun _ => .inr ⟨start, stop, p, hs, hp⟩, fun _ => ⟨_, rfl⟩⟩
    · have hno : ¬ ∃ start stop p, .tag start stop ∈ (lex scriptTags text).segments ∧
          StyleFailsAt start stop p := by
        rintro ⟨start, stop, p, hs, hp⟩
        obtain ⟨e, he⟩ := (htags hs).2 ⟨p, hp⟩
        obtain ⟨styled, hstyled⟩ := exists_isStyled_of_styledTags hfound hs
        simp [he] at hstyled
      obtain ⟨violations, hviolations⟩ := exists_violationsAt (upTo_ne_nil_of_mem_styledTags hfound)
      rw [hfound, or_iff_left hno]
      cases (lex scriptTags text).failure <;> simp [hviolations]
  · intro start stop p hs hp
    obtain ⟨htag, -, hclose⟩ := hread.closeTag_of_mem hs
    have htext : start.text = text := text_eq_of_le (hread.ahead hs).1
    rw [← htext]
    exact hp.hidden htag hclose

/-- A comment and an expression with an output tag that has no end: both
templates are read, and the finder fails on both. -/
theorem inlineStyleTags_fails_on_read :
    ((lex scriptTags "<!-- <isprint \x7b -->".toList).failure = none ∧
      inlineStyleTags "<!-- <isprint \x7b -->".toList =
        .error (.scan (.unterminatedScope '\x7b' 14))) ∧
    (lex scriptTags "<div a=\"$\x7b'<isprint <'\x7d\">x".toList).failure = none ∧
      inlineStyleTags "<div a=\"$\x7b'<isprint <'\x7d\">x".toList =
        .error (.scan (.unterminatedTag 12)) := by
  decide +kernel

end CartridgeAudit.Markup
