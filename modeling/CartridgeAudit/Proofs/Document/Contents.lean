/-
CartridgeAudit/Proofs/Document/Contents.lean

What a table of contents lists.

A guide is put together from chapters, and its table of contents has one entry
for each: a number, a point, the heading and the page, with nothing between
them.  The expression that reads the table takes as a heading whatever can begin
one and then all characters up to the next digit (`matches_contentsEntry`), so
where a heading stands before its page nothing but this heading is taken
(`Listable.eq_of_append`).  Numbers, points and pages begin nothing and are
passed over.  One step of the walk over the matches is therefore one entry
(`exists_matchesFrom_entry`), and all the steps read the headings back
(`headings_contentsOf`).
-/
import CartridgeAudit.Document.Guide
import CartridgeAudit.Proofs.Pattern.Iteration
import CartridgeAudit.Proofs.Text.Letters
import CartridgeAudit.Proofs.Text.Searching

namespace CartridgeAudit.Document

open Pattern Cursor

/-! ### Chapters -/

/-- A number as it is written in a table: some digits of the basic alphabet. -/
structure IsNumeral (t : Text) : Prop where
  ne_nil : t ≠ []
  isDigit : ∀ x ∈ t, x.isDigit = true

instance (t : Text) : Decidable (IsNumeral t) :=
  decidable_of_iff (t ≠ [] ∧ t.all Char.isDigit = true) (by
    rw [List.all_eq_true]
    exact ⟨fun h => ⟨h.1, h.2⟩, fun h => ⟨h.1, h.2⟩⟩)

/-- A heading that can be told from the number before and the page behind. -/
structure IsHeading (t : Text) : Prop where
  two_le : 2 ≤ t.length
  isDigit : ∀ x ∈ t, Text.isDigit x = false
  head_ne : t.head? ≠ some '.'

instance (t : Text) : Decidable (IsHeading t) :=
  decidable_of_iff (2 ≤ t.length ∧ t.all (!Text.isDigit ·) = true ∧ t.head? ≠ some '.') (by
    simp only [List.all_eq_true, Bool.not_eq_true']
    exact ⟨fun h => ⟨h.1, h.2.1, h.2.2⟩, fun h => ⟨h.1, h.2, h.3⟩⟩)

/-- A chapter of a guide, and how the table of contents lists it. -/
structure Chapter where
  number : Text
  heading : Text
  page : Text
  body : Text
  isNumeral_number : IsNumeral number
  isHeading : IsHeading heading
  isNumeral_page : IsNumeral page

/-- The entry of a chapter. -/
def Chapter.entry (c : Chapter) : Text := c.number ++ '.' :: (c.heading ++ c.page)

/-- The table of contents of a guide. -/
def contentsOf (cs : List Chapter) : Text := cs.flatMap Chapter.entry

@[simp] theorem contentsOf_nil : contentsOf [] = [] := rfl

@[simp] theorem contentsOf_cons (c : Chapter) (cs : List Chapter) :
    contentsOf (c :: cs) = c.entry ++ contentsOf cs := rfl

/-! ### Digits -/

/-- A number begins and goes on with digits. -/
theorem IsNumeral.exists_cons {t : Text} (h : IsNumeral t) :
    ∃ d ds, t = d :: ds ∧ Text.isDigit d = true ∧ ∀ x ∈ ds, x.isDigit = true := by
  obtain ⟨d, ds, rfl⟩ := List.exists_cons_of_ne_nil h.ne_nil
  obtain ⟨hd, hds⟩ := List.forall_mem_cons.1 h.isDigit
  exact ⟨d, ds, rfl, Text.isDigit_of_ascii hd, hds⟩

/-! ### What is taken for a heading -/

/-- Whether a heading can begin with a character. -/
def CanBegin (x : Char) : Prop := x.isDigit = false ∧ Text.isBlank x = false ∧ x ≠ '.'

/-- A text that is taken for a heading. -/
def Listable (t : Text) : Prop :=
  ∃ x y s, t = x :: y :: s ∧ CanBegin x ∧ ∀ z ∈ y :: s, Text.isDigit z = false

theorem contains_canBegin_iff {x : Char} :
    (⟨true, [.range '0' '9', .blank, .one '.']⟩ : CharClass).contains x = true ↔ CanBegin x := by
  have hrange : (decide ('0' ≤ x) && decide (x ≤ '9')) = x.isDigit := rfl
  simp [CharClass.contains, ClassItem.covers, hrange, CanBegin, eq_comm (a := x)]

/-- The expression for the heading in an entry. -/
def listedHeading : Regex :=
  .seq (.single ⟨true, [.range '0' '9', .blank, .one '.']⟩) (.run1 .notDigit)

theorem contentsEntry_eq :
    Catalog.contentsEntry = .seq (.capture 1 listedHeading) (.single .digit) := rfl

theorem isProper_contentsEntry : Catalog.contentsEntry.isProper = true := rfl

section

variable {p q : Cursor}

theorem matches_listedHeading : listedHeading.Matches p q ↔ ∃ t, Listable t ∧ p.Leads t q := by
  simp only [listedHeading, Regex.run1, Regex.matches_seq, Regex.matches_single,
    Regex.matches_many, contains_canBegin_iff, Regex.contains_notDigit_iff]
  constructor
  · rintro ⟨a, ⟨x, hx, hbegin⟩, b, ⟨y, hy, hdigit⟩, s, hs, hrest⟩
    exact ⟨x :: y :: s, ⟨x, y, s, rfl, hbegin, List.forall_mem_cons.2 ⟨hdigit, hrest⟩⟩,
      hx.trans (hy.trans hs)⟩
  · rintro ⟨t, ⟨x, y, s, rfl, hbegin, hdigits⟩, ht⟩
    obtain ⟨hdigit, hrest⟩ := List.forall_mem_cons.1 hdigits
    obtain ⟨a, hx, hxs⟩ := Leads.exists_between (s := [x]) ht
    obtain ⟨b, hy, hs⟩ := Leads.exists_between (s := [y]) hxs
    exact ⟨a, ⟨x, hx, hbegin⟩, b, ⟨y, hy, hdigit⟩, s, hs, hrest⟩

theorem matches_contentsEntry :
    Catalog.contentsEntry.Matches p q ↔
      ∃ t m d, Listable t ∧ p.Leads t m ∧ Text.isDigit d = true ∧ m.Leads [d] q := by
  rw [contentsEntry_eq]
  simp only [Regex.matches_seq, Regex.matches_capture, matches_listedHeading,
    Regex.matches_single, Regex.contains_digit_iff]
  constructor
  · rintro ⟨m, ⟨t, ht, hm⟩, d, hq, hd⟩
    exact ⟨t, m, d, ht, hm, hd, hq⟩
  · rintro ⟨t, m, d, ht, hm, hd, hq⟩
    exact ⟨m, ⟨t, ht, hm⟩, d, hq, hd⟩

/-- The heading is captured, up to the first digit of the page. -/
theorem capturesFirst_contentsEntry :
    Catalog.contentsEntry.CapturesFirst 1 fun a b q =>
      ∃ t d, Listable t ∧ a.Leads t b ∧ Text.isDigit d = true ∧ b.Leads [d] q := by
  rw [contentsEntry_eq]
  have hcapture := Regex.capturesFirst_capture (r := listedHeading) (i := 1) rfl
  refine (hcapture.seq (s := .single .digit) rfl).imp ?_
  rintro a b q ⟨m, ⟨hheading, rfl⟩, hdigit⟩
  obtain ⟨t, ht, hleads⟩ := matches_listedHeading.1 hheading
  obtain ⟨d, hq, hd⟩ := Regex.matches_single.1 hdigit
  exact ⟨t, d, ht, hleads, Regex.contains_digit_iff.1 hd, hq⟩

/-- **Before a page one heading is taken**, for it goes up to the first digit
behind its first character. -/
theorem Listable.eq_of_append {t t' rest rest' : Text} {d d' : Char} (ht : Listable t)
    (ht' : Listable t') (hd : Text.isDigit d = true) (hd' : Text.isDigit d' = true)
    (h : t ++ d :: rest = t' ++ d' :: rest') : t = t' := by
  obtain ⟨x, y, s, rfl, -, hs⟩ := ht
  obtain ⟨x', y', s', rfl, -, hs'⟩ := ht'
  obtain ⟨rfl, htail⟩ := List.cons.inj h
  have hsame : (y :: s) ++ d :: rest = (y' :: s') ++ d' :: rest' := htail
  have hrun {u rest : Text} {d : Char} (hu : ∀ z ∈ u, Text.isDigit z = false)
      (hd : Text.isDigit d = true) : (u ++ d :: rest).takeWhile (!Text.isDigit ·) = u :=
    Text.takeWhile_append_cons (by simpa using hu) (by simp [hd]) rest
  rw [← hrun hs hd, hsame, hrun hs' hd']

/-! ### One entry, one match -/

/-- Over characters that begin no heading the walk goes on behind them. -/
theorem matchesFrom_over {s : Text} (h : p.Leads s q) (hs : ∀ x ∈ s, ¬ CanBegin x) :
    Catalog.contentsEntry.matchesFrom p = Catalog.contentsEntry.matchesFrom q := by
  refine Regex.matchesFrom_of_leads h ?_
  intro c hpc hcq
  rw [Regex.matchAt_eq_none_iff]
  intro m hm
  obtain ⟨t, b, d, ⟨x, y, u, rfl, hbegin, -⟩, hb, -, -⟩ := matches_contentsEntry.1 hm
  obtain ⟨v, w, rfl, -, hw⟩ := h.split_of_le hpc hcq.le
  obtain ⟨z, w, rfl⟩ := List.exists_cons_of_ne_nil (hw.lt_iff.1 hcq)
  obtain ⟨rfl, -⟩ := List.cons.inj (hw.ahead.symm.trans hb.ahead)
  exact hs z (List.mem_append_right v List.mem_cons_self) hbegin

theorem not_canBegin_of_isDigit {x : Char} (h : x.isDigit = true) : ¬ CanBegin x := by
  rintro ⟨hx, -⟩
  rw [h] at hx
  cases hx

/-- From a heading to its page there is one match, and it captures the heading. -/
theorem exists_matchAt_of_leads {t : Text} {d : Char} {m : Cursor} (ht : Listable t)
    (hd : Text.isDigit d = true) (hm : p.Leads t m) (hq : m.Leads [d] q) :
    ∃ n, Catalog.contentsEntry.matchAt p = some n ∧ n.stop = q ∧ n.group? 1 = some (p, m) := by
  obtain ⟨n, hn⟩ := Regex.exists_matchAt (matches_contentsEntry.2 ⟨t, m, d, ht, hm, hd, hq⟩)
  obtain ⟨b, hgroup, t', d', ht', hb, hd', hstop⟩ := capturesFirst_contentsEntry.of_matchAt hn
  have hahead : t ++ d :: q.after = t' ++ d' :: n.stop.after := by
    have h := (hm.trans hq).ahead.symm.trans (hb.trans hstop).ahead
    simpa using h
  obtain rfl := ht.eq_of_append ht' hd hd' hahead
  obtain rfl := hm.right_unique hb
  obtain ⟨rfl, -⟩ := List.cons.inj (hq.ahead.symm.trans hstop.ahead)
  exact ⟨n, hn, hstop.right_unique hq, hgroup⟩

end

/-! ### The table -/

theorem Chapter.listable (c : Chapter) (hblank : ∀ x ∈ c.heading, Text.isBlank x = false) :
    Listable c.heading := by
  obtain ⟨htwo, hdigit, hpoint⟩ := c.isHeading
  generalize c.heading = t at *
  match t with
  | [] | [_] => simp at htwo
  | x :: y :: s =>
    obtain ⟨hx, hrest⟩ := List.forall_mem_cons.1 hdigit
    refine ⟨x, y, s, rfl, ⟨?_, hblank x List.mem_cons_self, ?_⟩, hrest⟩
    · exact Bool.eq_false_iff.2 fun h => by simp [Text.isDigit_of_ascii h] at hx
    · rintro rfl
      exact hpoint rfl

/-- **One step of the walk is one entry.** -/
theorem exists_matchesFrom_entry {p e : Cursor} (c : Chapter)
    (hblank : ∀ x ∈ c.heading, Text.isBlank x = false) (h : p.Leads c.entry e) :
    ∃ m a b, Catalog.contentsEntry.matchesFrom p = m :: Catalog.contentsEntry.matchesFrom e ∧
      m.group? 1 = some (a, b) ∧ a.Leads c.heading b ∧ b.Leads c.page e := by
  have hentry : c.entry = (c.number ++ ['.']) ++ (c.heading ++ c.page) := by simp [Chapter.entry]
  rw [hentry] at h
  obtain ⟨a, hnumber, hrest⟩ := h.exists_between
  obtain ⟨b, hheading, hpage⟩ := hrest.exists_between
  obtain ⟨d, ds, hpage_eq, hd, hds⟩ := c.isNumeral_page.exists_cons
  obtain ⟨q, hfirst, hlast⟩ := Leads.exists_between (s := [d]) (hpage_eq ▸ hpage)
  obtain ⟨m, hm, rfl, hgroup⟩ :=
    exists_matchAt_of_leads (c.listable hblank) hd hheading hfirst
  refine ⟨m, a, b, ?_, hgroup, hheading, hpage⟩
  have hbefore : ∀ x ∈ c.number ++ ['.'], ¬ CanBegin x := by
    intro x hx
    rcases List.mem_append.1 hx with hx | hx
    · exact not_canBegin_of_isDigit (c.isNumeral_number.isDigit x hx)
    · obtain rfl := List.mem_singleton.1 hx
      exact fun h => h.2.2 rfl
  rw [matchesFrom_over hnumber hbefore, Regex.matchesFrom_of_some isProper_contentsEntry hm,
    matchesFrom_over hlast fun x hx => not_canBegin_of_isDigit (hds x hx)]

/-- All the steps over a table read the headings back. -/
theorem map_groupText_matchesFrom {cs : List Chapter} {p : Cursor} {before : Text}
    (hblank : ∀ c ∈ cs, ∀ x ∈ c.heading, Text.isBlank x = false)
    (h : p.Leads (contentsOf cs) ⟨before, []⟩) :
    (Catalog.contentsEntry.matchesFrom p).map (·.groupText 1) = cs.map Chapter.heading := by
  induction cs generalizing p with
  | nil =>
    obtain rfl := leads_nil_iff.1 h
    rw [Regex.matchesFrom_at_end isProper_contentsEntry]
    rfl
  | cons c cs ih =>
    obtain ⟨hc, hcs⟩ := List.forall_mem_cons.1 hblank
    obtain ⟨e, hentry, hrest⟩ := Leads.exists_between (s := c.entry) h
    obtain ⟨m, a, b, hfrom, hgroup, hheading, -⟩ := exists_matchesFrom_entry c hc hentry
    rw [hfrom, List.map_cons, List.map_cons, ih hcs hrest, Regex.groupText_eq hgroup hheading]

/-- **The headings of a table of contents** are those of the chapters. -/
theorem headings_contentsOf {cs : List Chapter}
    (hblank : ∀ c ∈ cs, ∀ x ∈ c.heading, Text.isBlank x = false) :
    headings (contentsOf cs) = cs.map Chapter.heading := by
  rw [headings, Regex.matchesIn_eq_matchesFrom]
  have hall : (Text.start (contentsOf cs)).Leads (contentsOf cs) ⟨(contentsOf cs).reverse, []⟩ :=
    ⟨by simp [Text.start], by simp [Text.start]⟩
  exact map_groupText_matchesFrom hblank hall

end CartridgeAudit.Document
