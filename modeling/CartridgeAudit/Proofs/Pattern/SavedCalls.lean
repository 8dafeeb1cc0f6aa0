/-
CartridgeAudit/Proofs/Pattern/SavedCalls.lean

Calls whose result is put into a variable.

The expression for such calls takes the variable, an equals sign, and then
anything in the line up to one of the holders with one of the methods
(`callOf_matches_iff`).  So a match may begin at another variable than the one
that the call is assigned to: in `a = f(), b = Mgr.query()` it begins at `a`, and
`b` lies within.  The places at which a match around a word may begin are that of
the word and those of the variables to which the line up to the word is assigned
(`SharesLine`).

A match begins at the beginning of a word, since it could be longer otherwise
(`edge_of_mem_calls`), and it does not end within one
(`StandsAt.le_of_boundary`); so a match around the beginning of a word covers
the word (`of_mem_calls_around`).
-/
import CartridgeAudit.Proofs.Pattern.ClosingCalls
import CartridgeAudit.Proofs.Text.Letters
import Mathlib.Data.List.TakeWhile

namespace CartridgeAudit.Pattern

open Cursor Regex Template

/-! ### Whole words -/

/-- A text stands at a place as a whole word. -/
structure StandsAt (x : Text) (p : Cursor) : Prop where
  ne_nil : x ≠ []
  edge : headIsWord p.before = false
  eq_run : x = p.after.takeWhile Text.isWord

section

variable {x : Text} {p q c : Cursor}

theorem IsIdentifier.of_append_right {n n' : Text} (h : IsIdentifier (n ++ n')) (hne : n' ≠ []) :
    IsIdentifier n' :=
  ⟨hne, fun x hx => h.isWord x (List.mem_append_right n hx)⟩

theorem StandsAt.isIdentifier (h : StandsAt x p) : IsIdentifier x := by
  refine ⟨h.ne_nil, fun z hz => ?_⟩
  rw [h.eq_run] at hz
  exact List.mem_takeWhile_imp hz

/-- A text stands as a whole word where it does not go on. -/
theorem IsIdentifier.standsAt (h : IsIdentifier x) (hedge : headIsWord p.before = false)
    {rest : Text} (hahead : p.after = x ++ rest) (hrest : headIsWord rest = false) :
    StandsAt x p := by
  refine ⟨h.ne_nil, hedge, ?_⟩
  rw [hahead]
  cases rest with
  | nil => rw [List.append_nil, List.takeWhile_eq_self_iff.2 h.isWord]
  | cons z rest => exact (h.takeWhile_eq hrest rest).symm

theorem StandsAt.leads (h : StandsAt x p) : ∃ e, p.Leads x e := by
  have hprefix : x <+: p.after := by
    rw [h.eq_run]
    exact List.takeWhile_prefix _
  obtain ⟨rest, hrest⟩ := hprefix
  exact ⟨⟨x.reverse ++ p.before, rest⟩, hrest.symm, rfl⟩

/-- Only one word stands at a place. -/
theorem StandsAt.unique {y : Text} (h : StandsAt x p) (h' : StandsAt y p) : x = y :=
  h.eq_run.trans h'.eq_run.symm

/-- Within a word there is no boundary. -/
theorem StandsAt.le_of_boundary (h : StandsAt x p) (hx : p.Leads x q) (hpc : p < c)
    (hc : Anchor.wordBoundary.holds c = true) : q ≤ c := by
  rcases lt_or_le_of_le hx.le hpc.le with hcq | hqc
  · obtain ⟨s, r, rfl, hs, hr⟩ := hx.split_of_le hpc.le hcq.le
    have hsne := hs.lt_iff.1 hpc
    have hrne := hr.lt_iff.1 hcq
    have hbehind : headIsWord c.before = true := by
      rw [hs.behind, headIsWord_append (mt List.reverse_eq_nil_iff.1 hsne)]
      exact (h.isIdentifier.of_append hsne).reverse.headIsWord_eq
    have hahead : headIsWord c.after = true := by
      rw [hr.ahead, headIsWord_append hrne]
      exact (h.isIdentifier.of_append_right hrne).headIsWord_eq
    have hno : (headIsWord c.before != headIsWord c.after) = true := hc
    rw [hbehind, hahead] at hno
    cases hno
  · exact hqc

end

/-! ### Assignments -/

/-- A blank, or nothing. -/
structure IsGap (a : Text) : Prop where
  length_le : a.length ≤ 1
  isBlank : ∀ x ∈ a, Text.isBlank x = true

/-- An equals sign, with at most one blank on each side. -/
inductive IsEquals : Text → Prop
  | intro {a b : Text} (ha : IsGap a) (hb : IsGap b) : IsEquals (a ++ '=' :: b)

section

variable {a u : Text} {p q : Cursor}

theorem isWord_eq_false_of_isBlank {x : Char} (h : Text.isBlank x = true) :
    Text.isWord x = false := by
  rw [Bool.eq_false_iff]
  intro hword
  rw [Text.isBlank_eq_false_of_isWord hword] at h
  cases h

theorem IsGap.isWord_eq_false (h : IsGap a) : ∀ x ∈ a, Text.isWord x = false :=
  fun x hx => isWord_eq_false_of_isBlank (h.isBlank x hx)

theorem IsEquals.isWord_eq_false (h : IsEquals u) : ∀ x ∈ u, Text.isWord x = false := by
  obtain ⟨ha, hb⟩ := h
  intro x hx
  rcases List.mem_append.1 hx with hx | hx
  · exact ha.isWord_eq_false x hx
  · rcases List.mem_cons.1 hx with rfl | hx
    · decide
    · exact hb.isWord_eq_false x hx

theorem IsEquals.ne_nil (h : IsEquals u) : u ≠ [] := by
  obtain ⟨ha, hb⟩ := h
  simp

theorem headIsWord_append_of_not_word (hne : u ≠ []) (hu : ∀ x ∈ u, Text.isWord x = false)
    (rest : Text) : headIsWord (u ++ rest) = false := by
  obtain ⟨x, u, rfl⟩ := List.exists_cons_of_ne_nil hne
  exact hu x List.mem_cons_self

theorem matches_maybe_blank :
    (maybe (.single .blank)).Matches p q ↔ ∃ a, IsGap a ∧ p.Leads a q := by
  simp only [maybe, matches_alt, matches_single, matches_empty, contains_blank_iff]
  constructor
  · rintro (⟨x, hx, hxblank⟩ | rfl)
    · exact ⟨[x], ⟨Nat.le_refl 1, by simpa using hxblank⟩, hx⟩
    · exact ⟨[], ⟨Nat.zero_le 1, by simp⟩, Leads.refl q⟩
  · rintro ⟨a, ha, hleads⟩
    obtain _ | ⟨x, _ | ⟨y, a⟩⟩ := a
    · exact .inr (leads_nil_iff.1 hleads).symm
    · exact .inl ⟨x, hleads, ha.isBlank x List.mem_cons_self⟩
    · exact absurd ha.length_le (by simp)

end

/-- A variable at a place that is checked in the stead of a word at another one:
the word itself, or a variable to which the line up to the word is assigned. -/
inductive SharesLine (p : Cursor) (x : Text) : Cursor → Text → Prop
  | itself : SharesLine p x p x
  | earlier {q : Cursor} {y u line : Text} (hy : StandsAt y q) (hu : IsEquals u)
      (hline : '\n' ∉ line) (h : q.Leads (y ++ (u ++ line)) p) : SharesLine p x q y

/-- At the place of a word, only the word is checked in its stead. -/
theorem SharesLine.eq_of_same {p : Cursor} {x y : Text} (h : SharesLine p x p y) : y = x := by
  cases h with
  | itself => rfl
  | @earlier _ _ u line hy hu hline hleads =>
    have hne : y ++ (u ++ line) ≠ [] := List.append_ne_nil_of_left_ne_nil hy.ne_nil _
    exact absurd (hleads.lt_iff.2 hne) (lt_irrefl p)

/-- In an assignment, a word stands at the front or in what is assigned. -/
theorem sharesLine_of_le {p q e : Cursor} {x y u value : Text} (hx : StandsAt x p)
    (hy : StandsAt y q) (hu : IsEquals u) (hvalue : '\n' ∉ value)
    (h : q.Leads (y ++ (u ++ value)) e) (hqp : q ≤ p) (hpe : p < e) : SharesLine p x q y := by
  obtain ⟨s, r, hcut, hs, hr⟩ := h.split_of_le hqp hpe.le
  have hahead : headIsWord r = true := by
    obtain ⟨e', he'⟩ := hx.leads
    rw [← headIsWord_append (hr.lt_iff.1 hpe), ← hr.ahead, he'.ahead, headIsWord_append hx.ne_nil]
    exact hx.isIdentifier.headIsWord_eq
  rcases List.append_eq_append_iff.1 hcut with ⟨s', rfl, hcut'⟩ | ⟨more, rfl, -⟩
  · rcases List.append_eq_append_iff.1 hcut' with ⟨line, rfl, rfl⟩ | ⟨more, rfl, rfl⟩
    · exact .earlier hy hu (fun hmem => hvalue (List.mem_append_left _ hmem)) hs
    · -- the word does not begin in the equals sign and the blanks around it
      by_cases hmore : more = []
      · subst hmore
        exact .earlier hy (by simpa using hu) (List.not_mem_nil) (by simpa using hs)
      · rw [headIsWord_append_of_not_word hmore fun z hz =>
          hu.isWord_eq_false z (List.mem_append_right s' hz)] at hahead
        cases hahead
  · -- nor within the variable
    by_cases hsne : s = []
    · subst hsne
      obtain rfl := leads_nil_iff.1 hs
      rw [hy.unique hx]
      exact .itself
    · have hedge := hx.edge
      rw [hs.behind, headIsWord_append (mt List.reverse_eq_nil_iff.1 hsne),
        (hy.isIdentifier.of_append hsne).reverse.headIsWord_eq] at hedge
      cases hedge

/-! ### The expression -/

/-- What is behind the variable in the expression for a call. -/
def assignedCall (holders names : List Text) : Regex :=
  .sequence [maybe (.single .blank), .single (.one '='), maybe (.single .blank), restOfLine,
    slot holders, .single (.one '.'), slot names, boundary]

section

variable {holders names : List Text} {p q : Cursor} {t : Text} {m : Match}

/-- What is assigned ends, at a word boundary, in a holder with a method. -/
theorem matches_assignedCall :
    (assignedCall holders names).Matches p q ↔
      Anchor.wordBoundary.holds q = true ∧ ∃ u line h m, IsEquals u ∧ '\n' ∉ line ∧
        h ∈ holders ∧ m ∈ names ∧ p.Leads (u ++ (line ++ (h ++ '.' :: m))) q := by
  simp only [assignedCall, matches_sequence_cons]
  simp only [matches_maybe_blank, matches_one, matches_restOfLine, matches_slot, boundary,
    matches_assert, Regex.sequence, matches_empty]
  constructor
  · rintro ⟨c₁, ⟨a, ha, h₁⟩, c₂, h₂, c₃, ⟨b, hb, h₃⟩, c₄, ⟨line, hline, h₄⟩, c₅, ⟨h, hh, h₅⟩, c₆,
      h₆, c₇, ⟨m, hm, h₇⟩, _, ⟨hholds, rfl⟩, rfl⟩
    refine ⟨hholds, a ++ '=' :: b, line, h, m, ⟨ha, hb⟩, hline, hh, hm, ?_⟩
    have hleads := h₁.trans (h₂.trans (h₃.trans (h₄.trans (h₅.trans (h₆.trans h₇)))))
    simpa using hleads
  · rintro ⟨hholds, _, line, h, m, ⟨ha, hb⟩, hline, hh, hm, hleads⟩
    simp only [List.append_assoc, List.cons_append] at hleads
    obtain ⟨c₁, h₁, hleads⟩ := hleads.exists_between
    obtain ⟨c₂, h₂, hleads⟩ := Leads.exists_between (s := ['=']) hleads
    obtain ⟨c₃, h₃, hleads⟩ := hleads.exists_between
    obtain ⟨c₄, h₄, hleads⟩ := hleads.exists_between
    obtain ⟨c₅, h₅, hleads⟩ := hleads.exists_between
    obtain ⟨c₆, h₆, h₇⟩ := Leads.exists_between (s := ['.']) hleads
    exact ⟨c₁, ⟨_, ha, h₁⟩, c₂, h₂, c₃, ⟨_, hb, h₃⟩, c₄, ⟨line, hline, h₄⟩, c₅, ⟨h, hh, h₅⟩, c₆,
      h₆, q, ⟨m, hm, h₇⟩, q, ⟨hholds, rfl⟩, rfl⟩

/-- The expression is a variable with such a value behind it. -/
theorem callOf_eq (holders names : List Text) :
    callOf (slot holders) (slot names) =
      .seq (.capture 1 (run1 .word)) (assignedCall holders names) := rfl

theorem matches_callOf :
    (callOf (slot holders) (slot names)).Matches p q ↔
      ∃ y c, IsIdentifier y ∧ p.Leads y c ∧ (assignedCall holders names).Matches c q := by
  simp only [callOf_eq, matches_seq, matches_capture, matches_word_iff]
  constructor
  · rintro ⟨c, ⟨y, hy, hleads⟩, hcall⟩
    exact ⟨y, c, hy, hleads, hcall⟩
  · rintro ⟨y, c, hy, hleads, hcall⟩
    exact ⟨c, ⟨y, hy, hleads⟩, hcall⟩

theorem isProper_callOf (holders names : List Text) :
    (callOf (slot holders) (slot names)).isProper = true := rfl

theorem binds_assignedCall (holders names : List Text) :
    (assignedCall holders names).binds 1 = false := by
  apply binds_sequence
  simp [binds_slot, maybe, restOfLine, run, boundary, binds]

/-- A match begins with its variable. -/
theorem capturesFirst_callOf (holders names : List Text) :
    (callOf (slot holders) (slot names)).CapturesFirst 1 fun p b q =>
      (run1 .word).Matches p b ∧ (assignedCall holders names).Matches b q := by
  rw [callOf_eq]
  refine ((capturesFirst_capture rfl).seq (binds_assignedCall holders names)).imp ?_
  rintro p b q ⟨_, ⟨hname, rfl⟩, hcall⟩
  exact ⟨hname, hcall⟩

/-- Behind the variable of a match there is no word character. -/
theorem headIsWord_of_assignedCall (h : (assignedCall holders names).Matches p q) :
    headIsWord p.after = false := by
  obtain ⟨-, u, line, h, m, hu, -, -, -, hleads⟩ := matches_assignedCall.1 h
  rw [hleads.ahead, List.append_assoc]
  exact headIsWord_append_of_not_word hu.ne_nil hu.isWord_eq_false _

/-- **A match begins at the beginning of a word.** -/
theorem edge_of_mem_calls (hm : m ∈ (callOf (slot holders) (slot names)).matchesIn t) :
    headIsWord m.start.before = false := by
  obtain ⟨htext, -⟩ := mem_outcomes_of_mem_matchesIn hm
  obtain ⟨y, c, hy, hleads, hcall⟩ := matches_callOf.1 (matches_of_mem_matchesIn hm)
  obtain ⟨start, stop, groups⟩ := m
  obtain ⟨_ | ⟨z, before⟩, after⟩ := start
  · rfl
  rw [Bool.eq_false_iff]
  intro hz
  have hproper := isProper_callOf holders names
  have hstep := lt_cons before z after
  -- the expression matches one character earlier, and so some match goes on to here at least
  have hearlier : (callOf (slot holders) (slot names)).Matches ⟨before, z :: after⟩ stop :=
    matches_callOf.2 ⟨z :: y, c, ⟨List.cons_ne_nil z y, List.forall_mem_cons.2 ⟨hz, hy.isWord⟩⟩,
      leads_cons_iff.2 ⟨after, rfl, hleads⟩, hcall⟩
  obtain ⟨n, hn, hle, hlt⟩ := exists_mem_matchesIn_around hproper hearlier
  rw [show Cursor.text ⟨before, z :: after⟩ = t by rw [← htext]; simp [Cursor.text]] at hn
  have hnstart : n.start < ⟨z :: before, after⟩ := hle.trans_lt hstep
  have hne : n ≠ ⟨⟨z :: before, after⟩, stop, groups⟩ := by
    rintro rfl
    exact hnstart.false
  rcases stop_le_start_or hproper hn hm hne with hstop | hstop
  · -- it ends right here, but there is no word boundary
    have hend := le_antisymm hstop (cons_lt_iff.1 hlt)
    obtain ⟨_, _, _, _, hcall'⟩ := matches_callOf.1 (matches_of_mem_matchesIn hn)
    have hholds := (matches_assignedCall.1 hcall').1
    have hahead : headIsWord after = true := by
      rw [show after = y ++ c.after from hleads.ahead, headIsWord_append hy.ne_nil,
        hy.headIsWord_eq]
    have hno : (headIsWord n.stop.before != headIsWord n.stop.after) = true := hholds
    rw [hend] at hno
    rw [show headIsWord (z :: before) = true from hz, hahead] at hno
    cases hno
  · exact (hnstart.trans_le ((le_of_matches (matches_of_mem_matchesIn hm)).trans hstop)).false

/-- **The variable of a match**, and what its value is: behind an equals sign,
the line goes on to a holder with a method. -/
theorem exists_value_of_mem_calls (hm : m ∈ (callOf (slot holders) (slot names)).matchesIn t) :
    StandsAt (m.groupText 1) m.start ∧ Anchor.wordBoundary.holds m.stop = true ∧
      ∃ u line h n, IsEquals u ∧ '\n' ∉ line ∧ h ∈ holders ∧ n ∈ names ∧
        m.start.Leads (m.groupText 1 ++ (u ++ (line ++ (h ++ '.' :: n)))) m.stop := by
  obtain ⟨b, hgroup, hname, hcall⟩ := (capturesFirst_callOf holders names).of_mem_matchesIn hm
  obtain ⟨y, hy, hleads⟩ := matches_word_iff.1 hname
  obtain ⟨hholds, u, line, h, n, hu, hline, hh, hn, hvalue⟩ := matches_assignedCall.1 hcall
  rw [groupText_eq hgroup hleads]
  refine ⟨?_, hholds, u, line, h, n, hu, hline, hh, hn, hleads.trans hvalue⟩
  exact hy.standsAt (edge_of_mem_calls hm) hleads.ahead (headIsWord_of_assignedCall hcall)

/-- **A match around the beginning of a word** covers the word, and begins at a
variable that is checked in its stead. -/
theorem of_mem_calls_around (hholders : ∀ h ∈ holders, '\n' ∉ h) (hnames : ∀ n ∈ names, '\n' ∉ n)
    (hm : m ∈ (callOf (slot holders) (slot names)).matchesIn t) {x : Text} {e : Cursor}
    (hx : StandsAt x p) (he : p.Leads x e) (hle : m.start ≤ p) (hlt : p < m.stop) :
    SharesLine p x m.start (m.groupText 1) ∧ e ≤ m.stop := by
  obtain ⟨hy, hholds, u, line, h, n, hu, hline, hh, hn, hleads⟩ := exists_value_of_mem_calls hm
  refine ⟨sharesLine_of_le hx hy hu ?_ hleads hle hlt, hx.le_of_boundary he hlt hholds⟩
  have hdot : '\n' ≠ '.' := by decide
  simp [hline, hholders h hh, hnames n hn, hdot]

end

end CartridgeAudit.Pattern
