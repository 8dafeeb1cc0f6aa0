/-
CartridgeAudit/Proofs/Rule/PxSizes.lean

Sizes in pixels.

A size is a run of digits with `px` right behind it, and it is known by the place
between the two.  The expression that looks for sizes takes the shortest way
within the line to one to five digits with `px` behind them.  From a place that
does not lie within a run of digits this leads to the next size and nowhere else,
and the place behind the unit is again one of that kind; so the matches and the
sizes of a text correspond to each other, one by one (`forall₂_reads`).

What is captured, however, are the last five digits of the run, and what is
compared with the limit is the size modulo 100000 (`word?_of_reads`).  A size of
more digits may be let through (`noPxSizes_passes_long`).

Main result: `noPxSizes_reports`.
-/
import CartridgeAudit.Proofs.Pattern.Lines
import CartridgeAudit.Proofs.Rule.Spans
import Mathlib.Data.List.Forall2
import Mathlib.Data.Nat.Digits.Defs

namespace CartridgeAudit.Rule

open Pattern Regex Cursor

/-! ### Sizes -/

/-- The digits right behind a place, the last one first. -/
def digitsBehind (b : Cursor) : Text := b.before.takeWhile Text.isDigit

/-- The unit of sizes. -/
def unit : Text := "px".toList

/-- Whether a place is between the digits of a size and its unit. -/
def isSize (b : Cursor) : Bool := !(digitsBehind b).isEmpty && b.startsWith unit

/-- The sizes of a text, in order. -/
def sizesIn (t : Text) : List Cursor := (places [] t).filter isSize

/-- The value of a digit of the basic alphabet. -/
def digitValue (x : Char) : Nat := x.toNat - '0'.toNat

/-- How many pixels a size has. -/
def pixels (b : Cursor) : Nat := Nat.ofDigits 10 ((digitsBehind b).map digitValue)

/-- A violation goes over a size, up to the end of the unit. -/
def EndsInSize (w : Violation) (b : Cursor) : Prop :=
  ∃ a d q, a ≤ d ∧ d.Leads (digitsBehind b).reverse b ∧ b.Leads unit q ∧ w.Spans a q

section

variable {b c d q : Cursor} {s : Text} {m : Match}

theorem isSize_iff : isSize b = true ↔ digitsBehind b ≠ [] ∧ ∃ q, b.Leads unit q := by
  rw [isSize, Bool.and_eq_true, Bool.not_eq_true', List.isEmpty_eq_false_iff, Cursor.startsWith,
    List.isPrefixOf_iff_prefix]
  refine and_congr_right fun _ => ⟨?_, ?_⟩
  · rintro ⟨rest, hrest⟩
    exact ⟨⟨unit.reverse ++ b.before, rest⟩, hrest.symm, rfl⟩
  · rintro ⟨q, hq⟩
    exact ⟨q.after, hq.ahead.symm⟩

theorem isDigit_of_mem_digitsBehind {x : Char} (h : x ∈ digitsBehind b) : Text.isDigit x = true :=
  List.mem_takeWhile_imp h

/-- A run of digits makes the digits behind a place longer. -/
theorem digitsBehind_of_leads (h : d.Leads s b) (hs : ∀ x ∈ s, Text.isDigit x = true) :
    digitsBehind b = s.reverse ++ digitsBehind d := by
  rw [digitsBehind, h.behind, List.takeWhile_append_of_pos fun x hx => hs x (List.mem_reverse.1 hx)]
  rfl

theorem digitsBehind_of_not_digit {x : Char} (h : d.Leads [x] b) (hx : Text.isDigit x = false) :
    digitsBehind b = [] := by
  rw [digitsBehind, h.behind]
  exact List.takeWhile_cons_of_neg (by simp [hx])

/-- Behind a place that is in no run of digits, a run is read as a whole. -/
theorem exists_leads_digitsBehind (hc : digitsBehind c = []) (hle : c ≤ b) :
    ∃ d, c ≤ d ∧ d.Leads (digitsBehind b).reverse b := by
  obtain ⟨s, hs⟩ := hle
  have hrun : digitsBehind b = s.reverse.takeWhile Text.isDigit := by
    have hnil : c.before.takeWhile Text.isDigit = [] := hc
    rw [digitsBehind, hs.behind, List.takeWhile_append, hnil, List.append_nil]
    split
    · next h => exact ((List.takeWhile_prefix _).eq_of_length h).symm
    · rfl
  have hcut : s = (s.reverse.dropWhile Text.isDigit).reverse ++ (digitsBehind b).reverse := by
    rw [hrun, ← List.reverse_append, List.takeWhile_append_dropWhile, List.reverse_reverse]
  rw [hcut] at hs
  obtain ⟨d, hcd, hdb⟩ := hs.exists_between
  exact ⟨d, hcd.le, hdb⟩

/-! ### The expression -/

/-- The part of the expression that stands for a size. -/
def shortSize : Regex := .seq (.capture 1 (between 1 5 Catalog.digit)) (lit "px")

theorem matchAt_sizeInPx (c : Cursor) :
    Catalog.sizeInPx.matchAt c = (seq (many .inLine true) shortSize).matchAt c :=
  matchAt_seq_assoc _ _ _ c

theorem matches_digits_iff :
    (between 1 5 Catalog.digit).Matches d b ↔
      ∃ s, s ≠ [] ∧ s.length ≤ 5 ∧ (∀ x ∈ s, Text.isDigit x = true) ∧ d.Leads s b := by
  show (seq (single .digit) (atMost 4 (single .digit))).Matches d b ↔ _
  simp only [matches_seq, matches_single, matches_atMost, contains_digit_iff]
  constructor
  · rintro ⟨m, ⟨x, hx, hdigit⟩, s, hlength, hall, hs⟩
    exact ⟨x :: s, List.cons_ne_nil x s, Nat.succ_le_succ hlength,
      List.forall_mem_cons.2 ⟨hdigit, hall⟩, hx.trans hs⟩
  · rintro ⟨s, hne, hlength, hall, hs⟩
    obtain ⟨x, s, rfl⟩ := List.exists_cons_of_ne_nil hne
    obtain ⟨hdigit, hall⟩ := List.forall_mem_cons.1 hall
    obtain ⟨m, hx, hs⟩ := Leads.exists_between (s := [x]) hs
    exact ⟨m, ⟨x, hx, hdigit⟩, s, Nat.le_of_succ_le_succ hlength, hall, hs⟩

theorem matches_shortSize_iff :
    shortSize.Matches d q ↔ ∃ b s, s ≠ [] ∧ s.length ≤ 5 ∧ (∀ x ∈ s, Text.isDigit x = true) ∧
      d.Leads s b ∧ b.Leads unit q := by
  simp only [shortSize, matches_seq, matches_capture, matches_digits_iff, lit, matches_literal]
  constructor
  · rintro ⟨b, ⟨s, hne, hlength, hall, hs⟩, hunit⟩
    exact ⟨b, s, hne, hlength, hall, hs, hunit⟩
  · rintro ⟨b, s, hne, hlength, hall, hs, hunit⟩
    exact ⟨b, ⟨s, hne, hlength, hall, hs⟩, hunit⟩

theorem capturesFirst_shortSize :
    shortSize.CapturesFirst 1 fun d b q => (∃ s, s ≠ [] ∧ s.length ≤ 5 ∧
      (∀ x ∈ s, Text.isDigit x = true) ∧ d.Leads s b) ∧ b.Leads unit q := by
  refine ((capturesFirst_capture (r := between 1 5 Catalog.digit) rfl).seq rfl).imp ?_
  rintro d b q ⟨_, ⟨hdigits, rfl⟩, hunit⟩
  exact ⟨matches_digits_iff.1 hdigits, matches_literal.1 hunit⟩

theorem isProper_sizeInPx : Catalog.sizeInPx.isProper = true := rfl

/-- The last digit of a size is matched, with the unit behind it. -/
theorem exists_matches_of_isSize (hb : isSize b = true) (hc : digitsBehind c = []) (hle : c ≤ b) :
    ∃ d x q, c ≤ d ∧ d.Leads [x] b ∧ Text.isDigit x = true ∧ shortSize.Matches d q := by
  obtain ⟨hne, q, hq⟩ := isSize_iff.1 hb
  obtain ⟨a, hca, hrun⟩ := exists_leads_digitsBehind hc hle
  obtain ⟨x, xs, hcons⟩ := List.exists_cons_of_ne_nil hne
  have hx : Text.isDigit x = true :=
    isDigit_of_mem_digitsBehind (hcons ▸ List.mem_cons_self)
  rw [hcons, List.reverse_cons] at hrun
  obtain ⟨d, had, hdb⟩ := hrun.exists_between
  exact ⟨d, x, q, hca.trans had.le, hdb, hx, matches_shortSize_iff.2
    ⟨b, [x], List.cons_ne_nil x [], by simp, List.forall_mem_singleton.2 hx, hdb, hq⟩⟩

end

/-! ### One step of the walk -/

/-- A match reads a size: it ends behind the unit, it goes over the whole run of
digits, and it captures the last five of them. -/
structure Reads (m : Match) (b : Cursor) : Prop where
  isSize : isSize b = true
  run : ∃ d, m.start ≤ d ∧ d.Leads (digitsBehind b).reverse b
  unit : b.Leads unit m.stop
  captured : ∃ d, m.group? 1 = some (d, b) ∧ d.Leads ((digitsBehind b).take 5).reverse b

section

variable {b c d e q stop : Cursor} {s rest : Text} {m : Match}

/-- The digits that are matched from the first place that allows it are the last
five of the run. -/
theorem take_digitsBehind (hc : digitsBehind c = []) (hcd : c ≤ d)
    (hnone : ∀ e, c ≤ e → e < d → shortSize.matchAt e = none) (hlength : s.length ≤ 5)
    (hdigits : ∀ x ∈ s, Text.isDigit x = true) (hs : d.Leads s b) (hq : b.Leads unit q) :
    (digitsBehind b).take 5 = s.reverse := by
  rw [digitsBehind_of_leads hs hdigits]
  rcases Nat.eq_or_lt_of_le hlength with hfive | hfew
  · exact List.take_left' ((List.length_reverse).trans hfive)
  · -- one more digit could have been matched
    suffices hd : digitsBehind d = [] by
      rw [hd, List.append_nil, List.take_of_length_le (by rw [List.length_reverse]; omega)]
    obtain ⟨t, ht⟩ := hcd
    rcases List.eq_nil_or_concat' t with rfl | ⟨t, y, rfl⟩
    · rwa [← leads_nil_iff.1 ht]
    · obtain ⟨e, hce, hed⟩ := ht.exists_between
      cases hy : Text.isDigit y with
      | false => exact digitsBehind_of_not_digit hed hy
      | true =>
        have hmatches : shortSize.Matches e q := matches_shortSize_iff.2
          ⟨b, y :: s, List.cons_ne_nil y s, hfew, List.forall_mem_cons.2 ⟨hy, hdigits⟩,
            hed.trans hs, hq⟩
        exact absurd hmatches (matchAt_eq_none_iff.1 (hnone e hce.le (hed.lt_iff.2 (by simp))) q)

/-- Within a unit there is no size, and within digits neither. -/
theorem isSize_eq_false_of_lt (hs : d.Leads s b) (hdigits : ∀ x ∈ s, Text.isDigit x = true)
    (hde : d ≤ e) (heb : e < b) : isSize e = false := by
  obtain ⟨t, r, rfl, -, hr⟩ := hs.split_of_le hde heb.le
  obtain ⟨z, r, rfl⟩ := List.exists_cons_of_ne_nil (hr.lt_iff.1 heb)
  rw [Bool.eq_false_iff]
  intro hsize
  obtain ⟨-, q, hq⟩ := isSize_iff.1 hsize
  obtain ⟨rfl, -⟩ := List.cons.inj (hr.ahead.symm.trans hq.ahead)
  exact absurd (hdigits _ (List.mem_append_right t List.mem_cons_self)) (by decide)

theorem isSize_eq_false_in_unit (hq : b.Leads unit q) (hbe : b < e) (heq : e < q) :
    isSize e = false := by
  obtain ⟨before, after⟩ := b
  obtain ⟨ys, rfl, hx⟩ := (leads_cons_iff (s := ['x'])).1 hq
  obtain ⟨xs, rfl, hend⟩ := leads_cons_iff.1 hx
  obtain rfl := leads_nil_iff.1 hend
  rcases cons_le_iff.1 (cons_lt_iff.1 hbe) with rfl | hle
  · exact Bool.and_false _
  · exact absurd hle (not_le_of_gt heq)

/-- **A match is read from one size**, and there is no other one in it. -/
theorem exists_reads_of_matchAt (hc : digitsBehind c = [])
    (hm : Catalog.sizeInPx.matchAt c = some m) :
    ∃ b, c ≤ b ∧ Reads m b ∧ digitsBehind m.stop = [] ∧
      ∀ e, c ≤ e → e < m.stop → e ≠ b → isSize e = false := by
  have hstart := (of_matchAt_eq_some hm).1
  rw [matchAt_sizeInPx] at hm
  obtain ⟨_, d, -, hcd, hd, hnone⟩ := of_matchAt_lazy hm
  obtain ⟨b, hgroup, ⟨s, hne, hlength, hdigits, hs⟩, hunit⟩ := capturesFirst_shortSize.of_matchAt hd
  have hcb : c ≤ b := hcd.le.trans hs.le
  have hsize : isSize b = true := by
    refine isSize_iff.2 ⟨?_, m.stop, hunit⟩
    rw [digitsBehind_of_leads hs hdigits]
    exact List.append_ne_nil_of_left_ne_nil (mt List.reverse_eq_nil_iff.1 hne) _
  have hfive := take_digitsBehind hc hcd.le hnone hlength hdigits hs hunit
  refine ⟨b, hcb, ⟨hsize, ?_, hunit, d, hgroup, ?_⟩, ?_, ?_⟩
  · rw [hstart]
    exact exists_leads_digitsBehind hc hcb
  · rwa [hfive, List.reverse_reverse]
  · obtain ⟨a, -, hx⟩ := Leads.exists_between (s := ['p']) (r := ['x']) hunit
    exact digitsBehind_of_not_digit hx (by decide)
  · intro e hce hem hneb
    rcases lt_or_le_of_le hcb hce with heb | hbe
    · -- a size before this one would have been matched
      rw [Bool.eq_false_iff]
      intro he
      obtain ⟨d', x, q, hcd', hde, -, hmatches⟩ := exists_matches_of_isSize he hc hce
      have hle : d ≤ d' := by
        rcases lt_or_le_of_le hcd.le hcd' with hlt | hle
        · exact absurd hmatches (matchAt_eq_none_iff.1 (hnone d' hcd' hlt) q)
        · exact hle
      rw [isSize_eq_false_of_lt hs hdigits (hle.trans hde.le) heb] at he
      cases he
    · exact isSize_eq_false_in_unit hunit (lt_of_le_of_ne hbe (Ne.symm hneb)) hem

/-- In a line without a match there is no size, and no match begins later in the
line. -/
theorem of_matchAt_eq_none (hc : digitsBehind c = []) (hm : Catalog.sizeInPx.matchAt c = none)
    (hline : c.LineRest rest stop) (hce : c ≤ e) (hes : e ≤ stop) :
    isSize e = false ∧ Catalog.sizeInPx.matchAt e = none := by
  have hnone : ∀ d q, c ≤ d → d ≤ stop → ¬ shortSize.Matches d q := by
    intro d q hcd hds hmatches
    obtain ⟨s, r, rfl, hs, -⟩ := hline.leads.split_of_le hcd hds
    rw [matchAt_sizeInPx] at hm
    refine matchAt_eq_none_iff.1 hm q (matches_seq.2 ⟨d, matches_inLine.2 ⟨s, ?_, hs⟩, hmatches⟩)
    exact fun hmem => hline.not_mem (List.mem_append_left r hmem)
  constructor
  · rw [Bool.eq_false_iff]
    intro he
    obtain ⟨d, x, q, hcd, hde, -, hmatches⟩ := exists_matches_of_isSize he hc hce
    exact hnone d q hcd (hde.le.trans hes) hmatches
  · rw [matchAt_sizeInPx, matchAt_eq_none_iff]
    intro q hq
    obtain ⟨d, hrun, hmatches⟩ := matches_seq.1 hq
    obtain ⟨s, hs, hed⟩ := matches_inLine.1 hrun
    obtain ⟨t, r, -, hrest⟩ := hline.of_le hce hes
    exact hnone d q (hce.trans hed.le) (hrest.le_stop hed hs) hmatches

end

/-! ### The walk -/

/-- **Matches and sizes correspond to each other**, in order, from any place on
that is in no run of digits. -/
theorem forall₂_reads (c : Cursor) (hc : digitsBehind c = []) :
    List.Forall₂ Reads (Catalog.sizeInPx.matchesFrom c)
      ((places c.before c.after).filter isSize) := by
  -- each step ends behind a unit or behind a newline, and less is ahead there
  induction hn : c.after.length using Nat.strongRecOn generalizing c with
  | _ n ih =>
    cases hm : Catalog.sizeInPx.matchAt c with
    | some m =>
      obtain ⟨b, hcb, hreads, hstop, honly⟩ := exists_reads_of_matchAt hc hm
      have hbm := hreads.unit.lt_iff.2 (by decide)
      have hfirst : (places c.before c.after).filter isSize =
          b :: (places m.stop.before m.stop.after).filter isSize := by
        obtain ⟨s, hs⟩ := hcb
        rw [filter_places hs fun e hce heb => honly e hce (heb.trans hbm) heb.ne]
        obtain ⟨before, after⟩ := b
        obtain ⟨xs, rfl, hx⟩ := leads_cons_iff.1 hreads.unit
        rw [places_cons, List.filter_cons_of_pos hreads.isSize]
        refine congrArg _ (filter_places hx fun e hbe hem => ?_)
        have hlt := (lt_cons before _ xs).trans_le hbe
        exact honly e (hs.le.trans hlt.le) hem hlt.ne'
      rw [matchesFrom_of_some isProper_sizeInPx hm, hfirst]
      have hshorter := length_after_lt_of_lt (hcb.trans_lt hbm)
      exact .cons hreads (ih _ (hn ▸ hshorter) m.stop hstop rfl)
    | none =>
      obtain ⟨rest, stop, hline⟩ := c.exists_lineRest
      have hnone := fun e hce hes => of_matchAt_eq_none (e := e) hc hm hline hce hes
      rw [matchesFrom_of_leads hline.leads fun e hce hes => (hnone e hce hes.le).2,
        filter_places hline.leads fun e hce hes => (hnone e hce hes.le).1]
      obtain ⟨hsize, hmatch⟩ := hnone stop hline.leads.le le_rfl
      obtain ⟨before, after⟩ := stop
      rcases hline.ends with rfl | ⟨xs, rfl⟩
      · rw [matchesFrom_at_end isProper_sizeInPx, places_nil,
          List.filter_cons_of_neg (by simp [hsize])]
        exact .nil
      · rw [matchesFrom_of_none hmatch, places_cons, List.filter_cons_of_neg (by simp [hsize])]
        have hshorter := length_after_lt_of_lt (hline.leads.le.trans_lt (lt_cons before '\n' xs))
        exact ih _ (hn ▸ hshorter) _
          (digitsBehind_of_not_digit (Leads.cons before '\n' xs) (by decide)) rfl

/-! ### What is compared with the limit -/

/-- Digits that are read behind a number, as the number's lower digits. -/
theorem digitsFrom_eq {s : Text} (hs : ∀ x ∈ s, x.isDigit = true) (n : Nat) :
    Text.digitsFrom n s = some (Nat.ofDigits 10 (s.reverse.map digitValue ++ [n])) := by
  induction s generalizing n with
  | nil => simp [Text.digitsFrom]
  | cons x s ih =>
    obtain ⟨hx, hs⟩ := List.forall_mem_cons.1 hs
    have hrange : ('0' ≤ x && x ≤ '9') = true := hx
    rw [Text.digitsFrom, if_pos hrange, ih hs, List.reverse_cons, List.map_append,
      List.append_assoc, Nat.ofDigits_append, Nat.ofDigits_append]
    simp [Nat.ofDigits, digitValue, Nat.add_comm]

theorem digitValue_lt {x : Char} (hx : x.isDigit = true) : digitValue x < 10 := by
  simp only [Char.isDigit, Bool.and_eq_true, decide_eq_true_eq, UInt32.le_iff_toNat_le] at hx
  have hle : x.toNat ≤ 57 := hx.2
  rw [digitValue, show '0'.toNat = 48 from rfl]
  omega

/-- Digits are read as the number that they write. -/
theorem digits?_eq {s : Text} (hs : ∀ x ∈ s, x.isDigit = true) (hne : s ≠ []) :
    Text.digits? s = some (Nat.ofDigits 10 (s.reverse.map digitValue)) := by
  obtain ⟨x, xs, rfl⟩ := List.exists_cons_of_ne_nil hne
  rw [Text.digits?, digitsFrom_eq hs, Nat.ofDigits_append_zero]

/-- A few digits of the basic alphabet are read as a number. -/
theorem word?_eq {s : Text} (hs : ∀ x ∈ s, x.isDigit = true) (hne : s ≠ [])
    (hlength : s.length ≤ 5) :
    Text.word? s = some (Nat.ofDigits 10 (s.reverse.map digitValue)) := by
  have hplus : ∀ rest, s ≠ '+' :: rest := by
    rintro rest rfl
    exact absurd (hs '+' List.mem_cons_self) (by decide)
  have hlt : Nat.ofDigits 10 (s.reverse.map digitValue) < Text.wordLimit := by
    have hbound := Nat.ofDigits_lt_base_pow_length (b := 10)
      (l := s.reverse.map digitValue) (by decide) ?_
    · refine hbound.trans_le ((Nat.pow_le_pow_right (by decide) ?_).trans (by decide : 10 ^ 5 ≤ _))
      rwa [List.length_map, List.length_reverse]
    · intro n hn
      obtain ⟨y, hy, rfl⟩ := List.mem_map.1 hn
      exact digitValue_lt (hs y (List.mem_reverse.1 hy))
  rw [Text.word?, digits?_eq hs hne, Option.filter_some, if_pos (decide_eq_true hlt)]
  exact hplus

/-- **What is read of a size** is what its last five digits say. -/
theorem word?_of_reads {m : Match} {b : Cursor} (h : Reads m b)
    (hascii : ∀ x ∈ digitsBehind b, x.isDigit = true) :
    Text.word? (m.groupText 1) = some (pixels b % 10 ^ 5) := by
  obtain ⟨d, hgroup, hleads⟩ := h.captured
  have hmod : pixels b % 10 ^ 5 = Nat.ofDigits 10 (((digitsBehind b).map digitValue).take 5) := by
    refine Nat.ofDigits_mod_pow_eq_ofDigits_take 5 (by decide) _ fun n hn => ?_
    obtain ⟨x, hx, rfl⟩ := List.mem_map.1 hn
    exact digitValue_lt (hascii x hx)
  have hdigits : ∀ x ∈ ((digitsBehind b).take 5).reverse, x.isDigit = true :=
    fun x hx => hascii x (List.mem_of_mem_take (List.mem_reverse.1 hx))
  have hsome : ((digitsBehind b).take 5).reverse ≠ [] := by
    simpa using (isSize_iff.1 h.isSize).1
  have hlength : ((digitsBehind b).take 5).reverse.length ≤ 5 := by
    rw [List.length_reverse]
    exact List.length_take_le 5 _
  rw [groupText_eq hgroup hleads, word?_eq hdigits hsome hlength, List.reverse_reverse,
    List.map_take, ← hmod]

/-! ### What is reported -/

theorem Reads.start_le {m : Match} {b : Cursor} (h : Reads m b) : m.start ≤ b := by
  obtain ⟨d, hd, hrun⟩ := h.run
  exact hd.trans hrun.le

theorem Reads.endsInSize {m : Match} {b : Cursor} (h : Reads m b) {v : Violation}
    (hv : v.Marks m.text m.start.offset) : EndsInSize v b := by
  obtain ⟨d, hd, hrun⟩ := h.run
  exact ⟨m.start, d, m.stop, hd, hrun, h.unit, hv.text_eq, hv.offset_eq,
    h.start_le.trans_lt (h.unit.lt_iff.2 (by decide))⟩

theorem forall₂_reads_matchesIn (text : Text) :
    List.Forall₂ (fun m b => m.start.text = text ∧ Reads m b) (Catalog.sizeInPx.matchesIn text)
      (sizesIn text) := by
  refine (List.forall₂_and_left _ _).2 ⟨fun m hm => (mem_outcomes_of_mem_matchesIn hm).1, ?_⟩
  rw [matchesIn_eq_matchesFrom]
  exact forall₂_reads (Text.start text) rfl

theorem Reads.mem_text {m : Match} {b : Cursor} (h : Reads m b) {x : Char}
    (hx : x ∈ digitsBehind b) : x ∈ m.start.text := by
  rw [← text_eq_of_le h.start_le]
  exact List.mem_append_left _ (List.mem_reverse.2 ((List.takeWhile_prefix _).subset hx))

/-- Of two filters, the one that lets through less lets through the same if what it lets
through is as much. -/
theorem of_forall₂_filter {α β : Type} {R : α → β → Prop} {P Q : β → Bool} {l : List β}
    {found : List α} (hPQ : ∀ b, P b = true → Q b = true) (hP : List.Forall₂ R found (l.filter P))
    (hQ : List.Forall₂ R found (l.filter Q)) {b : β} (hb : b ∈ l) (h : Q b = true) :
    P b = true := by
  have hsub := List.monotone_filter_right l hPQ
  have heq := hsub.eq_of_length (hP.length_eq.symm.trans hQ.length_eq)
  have hmem : b ∈ l.filter Q := List.mem_filter.2 ⟨hb, h⟩
  rw [← heq] at hmem
  exact (List.mem_filter.1 hmem).2

/-- **The sizes that are reported**, in order: those whose last five digits are
above the limit.  They are the sizes above the limit if and only if no size of
more digits ends in five digits that are not. -/
theorem noPxSizes_reports (maxPx : Nat) (v : FileView) (notices : List Notice)
    (hascii : ∀ x ∈ v.content, Text.isDigit x = true → x.isDigit = true) :
    ∃ found, ((noPxSizes maxPx).check v notices).1 = .ok found ∧
      List.Forall₂ EndsInSize found
        ((sizesIn v.content).filter fun b => maxPx < pixels b % 10 ^ 5) ∧
      (List.Forall₂ EndsInSize found ((sizesIn v.content).filter fun b => maxPx < pixels b) ↔
        ∀ b ∈ sizesIn v.content, maxPx < pixels b → maxPx < pixels b % 10 ^ 5) := by
  have hcheck : ((noPxSizes maxPx).check v notices).1 = Catalog.sizeInPx.violationsWhere
      (fun m => (Text.word? (m.groupText 1)).any (maxPx < ·)) v.content := rfl
  have hlast : ∀ b, maxPx < pixels b % 10 ^ 5 → maxPx < pixels b :=
    fun b hlt => hlt.trans_le (Nat.mod_le _ _)
  obtain ⟨found, hfound, hmarks⟩ := exists_violationsWhere isProper_sizeInPx
    (fun m => (Text.word? (m.groupText 1)).any (maxPx < ·)) v.content
  have hbad : List.Forall₂ EndsInSize found
      ((sizesIn v.content).filter fun b => maxPx < pixels b % 10 ^ 5) := by
    refine forall₂_trans (fun hv h => h.2.endsInSize hv) hmarks.flip
      (List.rel_filter ?_ (forall₂_reads_matchesIn v.content))
    rintro m b ⟨htext, hreads⟩
    have hdigits : ∀ x ∈ digitsBehind b, x.isDigit = true := fun x hx =>
      hascii x (htext ▸ hreads.mem_text hx) (isDigit_of_mem_digitsBehind hx)
    show Option.any (maxPx < ·) (Text.word? (m.groupText 1)) = true ↔ _
    rw [word?_of_reads hreads hdigits]
    rfl
  refine ⟨found, hcheck.trans hfound, hbad, ?_, ?_⟩
  · -- as many sizes are above the limit as are read to be
    intro hall b hb hlt
    have hread := of_forall₂_filter
      (fun b h => decide_eq_true (hlast b (of_decide_eq_true h))) hbad hall hb
      (decide_eq_true hlt)
    exact of_decide_eq_true hread
  · intro hlong
    have heq : ((sizesIn v.content).filter fun b => maxPx < pixels b) =
        (sizesIn v.content).filter fun b => maxPx < pixels b % 10 ^ 5 := by
      refine List.filter_congr fun b hb => ?_
      rw [decide_eq_decide]
      exact ⟨hlong b hb, hlast b⟩
    rwa [heq]

/-- A style sheet with two sizes, in a project of its own. -/
def narrowPage : FileView where
  file := .ofText ⟨"/page.css"⟩ []
  content := "a\x7bwidth:12px;margin:4px\x7d".toList
  corpus := ⟨⟨.directory [], ⟨"/"⟩⟩, ⟨"/"⟩, false, [], ⟨[]⟩⟩

/-- The size above the limit is reported, up to the end of its unit. -/
theorem noPxSizes_reports_narrowPage :
    (∀ x ∈ narrowPage.content, Text.isDigit x = true → x.isDigit = true) ∧
      ∃ w, ((noPxSizes 5).check narrowPage []).1 = .ok [w] ∧
        EndsInSize w ⟨"a\x7bwidth:12".toList.reverse, "px;margin:4px\x7d".toList⟩ := by
  have hascii : ∀ x ∈ narrowPage.content, Text.isDigit x = true → x.isDigit = true := by
    simp [narrowPage, Text.isDigit]
  obtain ⟨found, hok, hfound, -⟩ := noPxSizes_reports 5 narrowPage [] hascii
  have hsizes : ((sizesIn narrowPage.content).filter fun b => 5 < pixels b % 10 ^ 5) =
      [⟨"a\x7bwidth:12".toList.reverse, "px;margin:4px\x7d".toList⟩] := by decide +kernel
  rw [hsizes] at hfound
  obtain ⟨w, rest, hw, hrest, rfl⟩ := List.forall₂_cons_right_iff.1 hfound
  obtain rfl := List.forall₂_nil_right_iff.1 hrest
  exact ⟨hascii, w, hok, hw⟩

/-- A size of six digits is read as its last five. -/
theorem noPxSizes_passes_long :
    sizesAbove 5 "a\x7bwidth:100000px\x7d".toList = .ok [] ∧
      ∃ b ∈ sizesIn "a\x7bwidth:100000px\x7d".toList, 5 < pixels b := by
  decide +kernel

end CartridgeAudit.Rule
