/-
CartridgeAudit/Proofs/Pattern/Captures.lean

What a match takes and what it captures.

That every match of an expression takes a character can be read off the
expression (`isProper`), and no match of such an expression has an empty text
(`text_ne_nil_of_mem_matchesIn`).  The matches in a text begin one behind the
other (`pairwise_matchesIn`), and how all of them begin is carried from the
front of the expression outwards (`Begins`).  That every match has a capture, and what is
between the capture and the end of the match, is carried from the capture
outwards (`Captures`); a capture at the front begins where the match does
(`CapturesFirst`).
-/
import CartridgeAudit.Proofs.Pattern.Matches

namespace CartridgeAudit.Pattern

open Cursor

namespace Regex

/-! ### Matches move on -/

theorem le_of_mem_rounds {step : Cursor → List Outcome}
    (hstep : ∀ p, ∀ o ∈ step p, p ≤ o.stop) {n : Nat} {p : Cursor} {o : Outcome}
    (ho : o ∈ rounds step n p) : p ≤ o.stop := by
  induction n generalizing p o with
  | zero =>
    obtain rfl := List.mem_singleton.1 ho
    exact le_refl p
  | succ n ih =>
    rcases List.mem_append.1 ho with ho | ho
    · obtain ⟨first, hfirst, ho⟩ := List.mem_flatMap.1 ho
      obtain ⟨rest, hrest, rfl⟩ := List.mem_map.1 ho
      have hlater := ih hrest
      exact (hstep p first (List.mem_filter.1 hfirst).1).trans hlater
    · obtain rfl := List.mem_singleton.1 ho
      exact le_refl p

theorem le_of_mem_outcomes {r : Regex} {p : Cursor} {o : Outcome} (ho : o ∈ r.outcomes p) :
    p ≤ o.stop := by
  induction r generalizing p o with
  | empty => exact (matches_empty.1 ⟨o, ho, rfl⟩).ge
  | single k =>
    obtain ⟨x, hx, -⟩ := matches_single.1 ⟨o, ho, rfl⟩
    exact hx.le
  | many k lazy =>
    obtain ⟨s, hs, -⟩ := matches_many.1 ⟨o, ho, rfl⟩
    exact hs.le
  | seq r s ihr ihs =>
    obtain ⟨a, ha, ho⟩ := List.mem_flatMap.1 ho
    obtain ⟨b, hb, rfl⟩ := List.mem_map.1 ho
    have hlater := ihs hb
    exact (ihr ha).trans hlater
  | alt r s ihr ihs =>
    rcases List.mem_append.1 ho with ho | ho
    · exact ihr ho
    · exact ihs ho
  | star r ih => exact le_of_mem_rounds (fun q a ha => ih ha) ho
  | capture i r ih =>
    obtain ⟨a, ha, rfl⟩ := List.mem_map.1 ho
    have hle := ih ha
    exact hle
  | assert a => exact (matches_assert.1 ⟨o, ho, rfl⟩).2.ge

theorem le_of_matches {r : Regex} {p q : Cursor} (h : r.Matches p q) : p ≤ q := by
  obtain ⟨o, ho, rfl⟩ := h
  exact le_of_mem_outcomes ho

/-- Whether every match takes a character. -/
def isProper : Regex → Bool
  | .single _ => true
  | .seq r s => r.isProper || s.isProper
  | .alt r s => r.isProper && s.isProper
  | .capture _ r => r.isProper
  | .empty | .many _ _ | .star _ | .assert _ => false

theorem lt_of_matches {r : Regex} (hr : r.isProper = true) {p q : Cursor} (h : r.Matches p q) :
    p < q := by
  induction r generalizing p q with
  | single k =>
    obtain ⟨x, hx, -⟩ := matches_single.1 h
    exact hx.lt_iff.2 (List.cons_ne_nil x [])
  | seq r s ihr ihs =>
    obtain ⟨m, hm, hq⟩ := matches_seq.1 h
    -- one of the two takes a character, and the other does not go back
    rcases Bool.or_eq_true_iff.1 hr with hr | hs
    · exact (ihr hr hm).trans_le (le_of_matches hq)
    · exact (le_of_matches hm).trans_lt (ihs hs hq)
  | alt r s ihr ihs =>
    obtain ⟨hr, hs⟩ := Bool.and_eq_true_iff.1 hr
    rcases matches_alt.1 h with h | h
    · exact ihr hr h
    · exact ihs hs h
  | capture i r ih => exact ih hr (matches_capture.1 h)
  | empty | many | star | assert => cases hr

theorem isProper_sequence (rs : List Regex) : (sequence rs).isProper = rs.any isProper := by
  induction rs with
  | nil => rfl
  | cons r rs ih =>
    cases rs with
    | nil => simp [sequence]
    | cons s rs =>
      show (r.isProper || (sequence (s :: rs)).isProper) = _
      rw [ih]
      rfl

/-! ### Matches in a text -/

theorem mem_of_mem_pick {m : Match} {skip : Nat} {glued : Bool} {found : List (Option Match)}
    (h : m ∈ pick skip glued found) : some m ∈ found := by
  fun_induction pick skip glued found with
  | case1 => cases h
  | case2 glued x rest skip ih => exact List.mem_cons_of_mem _ (ih h)
  | case3 glued rest ih => exact List.mem_cons_of_mem _ (ih h)
  | case4 rest n hn ih => exact List.mem_cons_of_mem _ (ih h)
  | case5 glued rest n hn hglued ih =>
    rcases List.mem_cons.1 h with rfl | h
    · exact List.mem_cons_self
    · exact List.mem_cons_of_mem _ (ih h)
  | case6 glued rest n k hn ih =>
    rcases List.mem_cons.1 h with rfl | h
    · exact List.mem_cons_self
    · exact List.mem_cons_of_mem _ (ih h)

/-- Picking keeps the order of the matches at all places. -/
theorem map_some_pick_sublist (skip : Nat) (glued : Bool) (found : List (Option Match)) :
    ((pick skip glued found).map some).Sublist found := by
  fun_induction pick skip glued found with
  | case1 => exact List.Sublist.refl []
  | case2 glued x rest skip ih => exact ih.cons _
  | case3 glued rest ih => exact ih.cons none
  | case4 m rest hm ih => exact ih.cons (some m)
  | case5 glued m rest hm hglued ih => exact ih.cons_cons (some m)
  | case6 glued m rest n hm ih => exact ih.cons_cons (some m)

theorem pairwise_places (before after : Text) : (places before after).Pairwise (· < ·) := by
  induction after generalizing before with
  | nil => exact List.pairwise_singleton _ _
  | cons x xs ih =>
    rw [places_cons, List.pairwise_cons]
    refine ⟨?_, ih _⟩
    intro p hp
    exact (lt_cons before x xs).trans_le (mem_places_iff.1 hp)

/-- **The matches in a text begin one behind the other.** -/
theorem pairwise_matchesIn (r : Regex) (t : Text) :
    (r.matchesIn t).Pairwise fun m n => m.start < n.start := by
  -- the match at a place begins there, so the matches are ordered as the places are
  have hplaces : ((places [] t).map r.matchAt).Pairwise fun x y =>
      ∀ m n, x = some m → y = some n → m.start < n.start := by
    rw [List.pairwise_map]
    refine (pairwise_places [] t).imp ?_
    intro p q hpq m n hm hn
    obtain ⟨o, -, rfl⟩ := Option.map_eq_some_iff.1 hm
    obtain ⟨o', -, rfl⟩ := Option.map_eq_some_iff.1 hn
    exact hpq
  have hpicked := hplaces.sublist (map_some_pick_sublist 0 false _)
  rw [← matchesIn_eq, List.pairwise_map] at hpicked
  refine hpicked.imp ?_
  intro m n h
  exact h m n rfl rfl

/-- A match in a text is an outcome at one of its places. -/
theorem mem_outcomes_of_mem_matchesIn {r : Regex} {t : Text} {m : Match} (h : m ∈ r.matchesIn t) :
    m.start.text = t ∧ ⟨m.stop, m.groups⟩ ∈ r.outcomes m.start := by
  rw [matchesIn_eq] at h
  obtain ⟨p, hp, hm⟩ := List.mem_map.1 (mem_of_mem_pick h)
  obtain ⟨o, ho, rfl⟩ := Option.map_eq_some_iff.1 hm
  exact ⟨mem_places_start_iff.1 hp, List.mem_of_mem_head? ho⟩

theorem matches_of_mem_matchesIn {r : Regex} {t : Text} {m : Match} (h : m ∈ r.matchesIn t) :
    r.Matches m.start m.stop :=
  ⟨_, (mem_outcomes_of_mem_matchesIn h).2, rfl⟩

/-- **A match of a proper expression has a text.** -/
theorem text_ne_nil_of_mem_matchesIn {r : Regex} (hr : r.isProper = true) {t : Text} {m : Match}
    (h : m ∈ r.matchesIn t) : m.text ≠ [] := by
  have hlt := lt_of_matches hr (matches_of_mem_matchesIn h)
  exact (leads_upTo hlt.le).lt_iff.1 hlt

/-! ### How matches begin -/

/-- The text ahead of every match has a property. -/
def Begins (r : Regex) (P : Text → Prop) : Prop := ∀ p q, r.Matches p q → P p.after

section

variable {r s : Regex} {P Q : Text → Prop}

theorem begins_literal (t : Text) : (literal t).Begins (t <+: ·) := by
  intro p q h
  exact ⟨q.after, (matches_literal.1 h).ahead.symm⟩

theorem begins_single (k : CharClass) :
    (single k).Begins fun ahead => ∃ x xs, ahead = x :: xs ∧ k.contains x = true := by
  intro p q h
  obtain ⟨x, hx, hk⟩ := matches_single.1 h
  exact ⟨x, q.after, hx.ahead, hk⟩

theorem Begins.imp (h : r.Begins P) (hPQ : ∀ t, P t → Q t) : r.Begins Q :=
  fun p q hm => hPQ _ (h p q hm)

theorem Begins.seq (h : r.Begins P) (s : Regex) : (seq r s).Begins P := by
  intro p q hm
  obtain ⟨m, hm, -⟩ := matches_seq.1 hm
  exact h p m hm

/-- An assertion takes nothing. -/
theorem Begins.behind (h : r.Begins P) (a : Anchor) : (Regex.seq (assert a) r).Begins P := by
  intro p q hm
  obtain ⟨m, ha, hrest⟩ := matches_seq.1 hm
  obtain rfl := (matches_assert.1 ha).2
  exact h m q hrest

theorem Begins.alt (h : r.Begins P) (h' : s.Begins P) : (alt r s).Begins P := by
  intro p q hm
  rcases matches_alt.1 hm with hm | hm
  · exact h p q hm
  · exact h' p q hm

theorem Begins.capture (h : r.Begins P) (i : Nat) : (capture i r).Begins P :=
  fun p q hm => h p q (matches_capture.1 hm)

theorem Begins.of_mem_matchesIn (h : r.Begins P) {t : Text} {m : Match} (hm : m ∈ r.matchesIn t) :
    P m.start.after :=
  h m.start m.stop (matches_of_mem_matchesIn hm)

end

/-! ### Captures -/

/-- The text of a capture is what leads through it. -/
theorem groupText_eq {m : Match} {i : Nat} {a b : Cursor} {s : Text}
    (h : m.group? i = some (a, b)) (hs : a.Leads s b) : m.groupText i = s := by
  rw [Match.groupText, h]
  exact hs.upTo_eq

/-- Whether some capture has a number. -/
def binds (i : Nat) : Regex → Bool
  | .empty | .single _ | .many _ _ | .assert _ => false
  | .seq r s | .alt r s => r.binds i || s.binds i
  | .star r => r.binds i
  | .capture j r => j == i || r.binds i

theorem lookup_rounds_eq_none {i : Nat} {step : Cursor → List Outcome}
    (hstep : ∀ p, ∀ o ∈ step p, o.groups.lookup i = none) {n : Nat} {p : Cursor} {o : Outcome}
    (ho : o ∈ rounds step n p) : o.groups.lookup i = none := by
  induction n generalizing p o with
  | zero =>
    obtain rfl := List.mem_singleton.1 ho
    rfl
  | succ n ih =>
    -- a first round and what it goes on with, or no round
    rcases List.mem_append.1 ho with ho | ho
    · obtain ⟨first, hfirst, ho⟩ := List.mem_flatMap.1 ho
      obtain ⟨rest, hrest, rfl⟩ := List.mem_map.1 ho
      have hfirst := hstep p first (List.mem_filter.1 hfirst).1
      show (rest.groups ++ first.groups).lookup i = none
      rw [List.lookup_append, ih hrest, hfirst]
      rfl
    · obtain rfl := List.mem_singleton.1 ho
      rfl

/-- A number that no capture has is looked up in vain. -/
theorem lookup_eq_none {r : Regex} {i : Nat} (hr : r.binds i = false) {p : Cursor} {o : Outcome}
    (ho : o ∈ r.outcomes p) : o.groups.lookup i = none := by
  induction r generalizing p o with
  | empty =>
    obtain rfl := List.mem_singleton.1 ho
    rfl
  | single k =>
    simp only [outcomes] at ho
    split at ho
    · cases ho
    · split at ho
      · obtain rfl := List.mem_singleton.1 ho
        rfl
      · cases ho
  | many k lazy =>
    obtain ⟨q, -, rfl⟩ := List.mem_map.1 ho
    rfl
  | seq r s ihr ihs =>
    obtain ⟨hr, hs⟩ := Bool.or_eq_false_iff.1 hr
    obtain ⟨a, ha, ho⟩ := List.mem_flatMap.1 ho
    obtain ⟨b, hb, rfl⟩ := List.mem_map.1 ho
    show (b.groups ++ a.groups).lookup i = none
    rw [List.lookup_append, ihs hs hb, ihr hr ha]
    rfl
  | alt r s ihr ihs =>
    obtain ⟨hr, hs⟩ := Bool.or_eq_false_iff.1 hr
    rcases List.mem_append.1 ho with ho | ho
    · exact ihr hr ho
    · exact ihs hs ho
  | star r ih => exact lookup_rounds_eq_none (fun q a ha => ih hr ha) ho
  | capture j r ih =>
    obtain ⟨hj, hr⟩ := Bool.or_eq_false_iff.1 hr
    obtain ⟨a, ha, rfl⟩ := List.mem_map.1 ho
    have hne : (i == j) = false := by rw [BEq.comm, hj]
    show (a.groups ++ [(j, p, a.stop)]).lookup i = none
    rw [List.lookup_append, ih hr ha, List.lookup_cons, hne]
    rfl
  | assert a =>
    simp only [outcomes] at ho
    split at ho
    · obtain rfl := List.mem_singleton.1 ho
      rfl
    · cases ho

/-- Every match has a capture of a number, and its two ends and the end of the
match are related in some way. -/
def Captures (r : Regex) (i : Nat) (P : Cursor → Cursor → Cursor → Prop) : Prop :=
  ∀ p, ∀ o ∈ r.outcomes p, ∃ a b, o.groups.lookup i = some (a, b) ∧ P a b o.stop

section

variable {r s : Regex} {i : Nat} {P : Cursor → Cursor → Cursor → Prop}

theorem captures_capture (h : r.binds i = false) :
    (capture i r).Captures i fun a b q => r.Matches a b ∧ q = b := by
  intro p o ho
  obtain ⟨a, ha, rfl⟩ := List.mem_map.1 ho
  refine ⟨p, a.stop, ?_, ⟨a, ha, rfl⟩, rfl⟩
  rw [List.lookup_append, lookup_eq_none h ha]
  simp

theorem Captures.seq_left (h : r.Captures i P) (hs : s.binds i = false) :
    (seq r s).Captures i fun a b q => ∃ m, P a b m ∧ s.Matches m q := by
  intro p o ho
  obtain ⟨x, hx, ho⟩ := List.mem_flatMap.1 ho
  obtain ⟨y, hy, rfl⟩ := List.mem_map.1 ho
  obtain ⟨a, b, hlookup, hP⟩ := h p x hx
  refine ⟨a, b, ?_, x.stop, hP, y, hy, rfl⟩
  show (y.groups ++ x.groups).lookup i = _
  rw [List.lookup_append, lookup_eq_none hs hy, hlookup]
  rfl

theorem Captures.seq_right (r : Regex) (h : s.Captures i P) : (seq r s).Captures i P := by
  intro p o ho
  obtain ⟨x, hx, ho⟩ := List.mem_flatMap.1 ho
  obtain ⟨y, hy, rfl⟩ := List.mem_map.1 ho
  obtain ⟨a, b, hlookup, hP⟩ := h x.stop y hy
  refine ⟨a, b, ?_, hP⟩
  show (y.groups ++ x.groups).lookup i = _
  rw [List.lookup_append, hlookup]
  rfl

theorem Captures.exists_group? (h : r.Captures i P) {t : Text} {m : Match}
    (hm : m ∈ r.matchesIn t) : ∃ a b, m.group? i = some (a, b) ∧ P a b m.stop :=
  h m.start _ (mem_outcomes_of_mem_matchesIn hm).2

/-- Every match has a capture of a number that begins where the match does, and
the beginning, the end of the capture and the end of the match are related in
some way. -/
def CapturesFirst (r : Regex) (i : Nat) (P : Cursor → Cursor → Cursor → Prop) : Prop :=
  ∀ p, ∀ o ∈ r.outcomes p, ∃ b, o.groups.lookup i = some (p, b) ∧ P p b o.stop

theorem capturesFirst_capture (h : r.binds i = false) :
    (capture i r).CapturesFirst i fun a b q => r.Matches a b ∧ q = b := by
  intro p o ho
  obtain ⟨a, ha, rfl⟩ := List.mem_map.1 ho
  refine ⟨a.stop, ?_, ⟨a, ha, rfl⟩, rfl⟩
  rw [List.lookup_append, lookup_eq_none h ha]
  simp

theorem CapturesFirst.seq (h : r.CapturesFirst i P) (hs : s.binds i = false) :
    (Regex.seq r s).CapturesFirst i fun a b q => ∃ m, P a b m ∧ s.Matches m q := by
  intro p o ho
  obtain ⟨x, hx, ho⟩ := List.mem_flatMap.1 ho
  obtain ⟨y, hy, rfl⟩ := List.mem_map.1 ho
  obtain ⟨b, hlookup, hP⟩ := h p x hx
  refine ⟨b, ?_, x.stop, hP, y, hy, rfl⟩
  show (y.groups ++ x.groups).lookup i = _
  rw [List.lookup_append, lookup_eq_none hs hy, hlookup]
  rfl

/-- An assertion takes nothing. -/
theorem CapturesFirst.behind (h : r.CapturesFirst i P) (a : Anchor) :
    (Regex.seq (assert a) r).CapturesFirst i fun p b q => a.holds p = true ∧ P p b q := by
  intro p o ho
  obtain ⟨x, hx, ho⟩ := List.mem_flatMap.1 ho
  obtain ⟨y, hy, rfl⟩ := List.mem_map.1 ho
  obtain ⟨hholds, hstop⟩ := matches_assert.1 ⟨x, hx, rfl⟩
  rw [hstop] at hy
  obtain ⟨b, hlookup, hP⟩ := h p y hy
  refine ⟨b, ?_, hholds, hP⟩
  show (y.groups ++ x.groups).lookup i = _
  rw [List.lookup_append, hlookup]
  rfl

theorem CapturesFirst.imp {Q : Cursor → Cursor → Cursor → Prop} (h : r.CapturesFirst i P)
    (hPQ : ∀ a b q, P a b q → Q a b q) : r.CapturesFirst i Q := by
  intro p o ho
  obtain ⟨b, hlookup, hP⟩ := h p o ho
  exact ⟨b, hlookup, hPQ p b o.stop hP⟩

/-- What is said about the capture alone holds whatever comes behind. -/
theorem CapturesFirst.extend {Q : Cursor → Cursor → Prop}
    (h : r.CapturesFirst i fun a b _ => Q a b) (hs : s.binds i = false) :
    (Regex.seq r s).CapturesFirst i fun a b _ => Q a b :=
  (h.seq hs).imp fun _ _ _ ⟨_, hQ, _⟩ => hQ

theorem CapturesFirst.of_mem_matchesIn (h : r.CapturesFirst i P) {t : Text} {m : Match}
    (hm : m ∈ r.matchesIn t) : ∃ b, m.group? i = some (m.start, b) ∧ P m.start b m.stop :=
  h m.start _ (mem_outcomes_of_mem_matchesIn hm).2

/-- A capture between two other parts begins where the first part ends. -/
theorem exists_group?_between {before after : Regex} (hr : r.binds i = false)
    (hafter : after.binds i = false) {t : Text} {m : Match}
    (hm : m ∈ (seq (seq before (capture i r)) after).matchesIn t) :
    ∃ a b, m.group? i = some (a, b) ∧ before.Matches m.start a ∧ r.Matches a b ∧
      after.Matches b m.stop := by
  -- the three parts one after the other, the latest captures first
  obtain ⟨y, hy, ho⟩ := List.mem_flatMap.1 (mem_outcomes_of_mem_matchesIn hm).2
  obtain ⟨z, hz, hall⟩ := List.mem_map.1 ho
  obtain ⟨w, hw, hy⟩ := List.mem_flatMap.1 hy
  obtain ⟨v, hv, rfl⟩ := List.mem_map.1 hy
  obtain ⟨u, hu, rfl⟩ := List.mem_map.1 hv
  obtain ⟨hstop, hgroups⟩ := Outcome.mk.inj hall
  refine ⟨w.stop, u.stop, ?_, ⟨w, hw, rfl⟩, ⟨u, hu, rfl⟩, ⟨z, hz, hstop⟩⟩
  show m.groups.lookup i = _
  rw [← hgroups]
  show (z.groups ++ ((u.groups ++ [(i, w.stop, u.stop)]) ++ w.groups)).lookup i = _
  rw [List.lookup_append, lookup_eq_none hafter hz, List.lookup_append, List.lookup_append,
    lookup_eq_none hr hu]
  simp

end

end Regex

end CartridgeAudit.Pattern
