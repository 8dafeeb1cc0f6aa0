/-
CartridgeAudit/Proofs/Pattern/Matches.lean

What expressions match, by places.

`Regex.Matches r p q` says that `r` can match from the place `p` to the place
`q`, whatever it captures and whichever of several ways is preferred.  There is
one equivalence for each kind of expression, so a pattern is opened by
rewriting, and a pattern is found in a text if and only if it matches between
two of its places (`isMatch_iff`).
-/
import CartridgeAudit.Pattern.Match
import CartridgeAudit.Proofs.Text.Place

namespace CartridgeAudit.Pattern

open Cursor

/-! ### Places -/

theorem mem_places_iff {before after : Text} {p : Cursor} :
    p ∈ places before after ↔ ⟨before, after⟩ ≤ p := by
  induction after generalizing before with
  | nil => simp [nil_le_iff]
  | cons x xs ih => simp [cons_le_iff, ih]

/-- The places of a text are those that stand in it. -/
theorem mem_places_start_iff {t : Text} {p : Cursor} : p ∈ places [] t ↔ p.text = t := by
  rw [mem_places_iff]
  constructor
  · exact text_eq_of_le
  · rintro rfl
    exact p.start_le

theorem mem_stops_iff {k : CharClass} {before after : Text} {q : Cursor} :
    q ∈ stops k before after ↔
      ∃ s, Leads ⟨before, after⟩ s q ∧ ∀ x ∈ s, k.contains x = true := by
  induction after generalizing before with
  | nil =>
    rw [stops, List.mem_singleton]
    constructor
    · rintro rfl
      exact ⟨[], Leads.refl _, by simp⟩
    · rintro ⟨s, hs, -⟩
      exact nil_le_iff.1 hs.le
  | cons x xs ih =>
    rw [stops, List.mem_cons]
    constructor
    · rintro (rfl | hq)
      · exact ⟨[], Leads.refl _, by simp⟩
      · split at hq
        · next hx =>
          obtain ⟨s, hs, hall⟩ := ih.1 hq
          exact ⟨x :: s, (Leads.cons before x xs).trans hs, by simpa [hx] using hall⟩
        · cases hq
    · rintro ⟨s, hs, hall⟩
      cases s with
      | nil =>
        left
        obtain ⟨ha, hb⟩ := hs
        cases q
        simp_all
      | cons y ys =>
        right
        obtain ⟨rfl, hys⟩ := List.cons.inj hs.ahead
        rw [if_pos (hall x List.mem_cons_self), ih]
        exact ⟨ys, ⟨hys, by simpa using hs.behind⟩, fun z hz => hall z (List.mem_cons_of_mem _ hz)⟩

namespace Regex

/-! ### Matching between places -/

/-- An expression can match from one place to another. -/
def Matches (r : Regex) (p q : Cursor) : Prop := ∃ o ∈ r.outcomes p, o.stop = q

/-- **A pattern is found** if and only if it matches between two places. -/
theorem isMatch_iff {r : Regex} {t : Text} :
    r.isMatch t = true ↔ ∃ p q, p.text = t ∧ r.Matches p q := by
  rw [isMatch, find?_eq, List.findSome?_isSome_iff]
  constructor
  · rintro ⟨p, hp, hm⟩
    rw [matchAt, Option.isSome_map, List.isSome_head?] at hm
    obtain ⟨o, ho⟩ := List.exists_mem_of_ne_nil _ hm
    exact ⟨p, o.stop, mem_places_start_iff.1 hp, o, ho, rfl⟩
  · rintro ⟨p, q, rfl, o, ho, -⟩
    refine ⟨p, mem_places_start_iff.2 rfl, ?_⟩
    rw [matchAt, Option.isSome_map, List.isSome_head?]
    exact List.ne_nil_of_mem ho

section Kinds

variable {r s : Regex} {k : CharClass} {p q : Cursor}

theorem matches_single : (single k).Matches p q ↔ ∃ x, p.Leads [x] q ∧ k.contains x = true := by
  obtain ⟨before, after⟩ := p
  cases after with
  | nil =>
    simp only [Matches, outcomes, List.not_mem_nil, false_and, exists_false, false_iff]
    rintro ⟨x, h, -⟩
    cases h.ahead
  | cons y ys =>
    constructor
    · rintro ⟨o, ho, rfl⟩
      simp only [outcomes] at ho
      split at ho
      · next hy =>
        obtain rfl := List.mem_singleton.1 ho
        exact ⟨y, Leads.cons before y ys, hy⟩
      · cases ho
    · rintro ⟨x, ⟨ha, hb⟩, hx⟩
      obtain ⟨rfl, hys⟩ := List.cons.inj ha
      refine ⟨⟨⟨y :: before, ys⟩, []⟩, by simp [outcomes, hx], ?_⟩
      cases q
      simp_all

theorem matches_many {lazy : Bool} :
    (many k lazy).Matches p q ↔ ∃ s, p.Leads s q ∧ ∀ x ∈ s, k.contains x = true := by
  rw [← mem_stops_iff]
  cases lazy <;> simp [Matches, outcomes]

theorem matches_seq : (seq r s).Matches p q ↔ ∃ m, r.Matches p m ∧ s.Matches m q := by
  constructor
  · rintro ⟨o, ho, rfl⟩
    obtain ⟨a, ha, ho⟩ := List.mem_flatMap.1 ho
    obtain ⟨b, hb, rfl⟩ := List.mem_map.1 ho
    exact ⟨a.stop, ⟨a, ha, rfl⟩, b, hb, rfl⟩
  · rintro ⟨m, ⟨a, ha, rfl⟩, b, hb, rfl⟩
    exact ⟨b.behind a.groups, List.mem_flatMap.2 ⟨a, ha, List.mem_map_of_mem hb⟩, rfl⟩

theorem matches_assert {a : Anchor} : (assert a).Matches p q ↔ a.holds p = true ∧ q = p := by
  cases h : a.holds p
  · simp [Matches, outcomes, h]
  · simp [Matches, outcomes, h, eq_comm]

theorem matches_empty : empty.Matches p q ↔ q = p := by
  simp [Matches, outcomes, eq_comm]

theorem matches_alt : (alt r s).Matches p q ↔ r.Matches p q ∨ s.Matches p q := by
  simp only [Matches, outcomes, List.mem_append, or_and_right, exists_or]

theorem matches_capture {i : Nat} : (capture i r).Matches p q ↔ r.Matches p q := by
  simp [Matches, outcomes]

/-- A non-empty run of characters of a class. -/
theorem matches_run1 :
    (run1 k).Matches p q ↔ ∃ s, s ≠ [] ∧ (∀ x ∈ s, k.contains x = true) ∧ p.Leads s q := by
  rw [run1, matches_seq]
  simp only [matches_single, matches_many]
  constructor
  · rintro ⟨m, ⟨x, hx, hk⟩, s, hs, hall⟩
    exact ⟨x :: s, List.cons_ne_nil x s, List.forall_mem_cons.2 ⟨hk, hall⟩, hx.trans hs⟩
  · rintro ⟨s, hne, hall, hleads⟩
    obtain ⟨x, s, rfl⟩ := List.exists_cons_of_ne_nil hne
    obtain ⟨hk, hall⟩ := List.forall_mem_cons.1 hall
    obtain ⟨m, hx, hs⟩ := Leads.exists_between (s := [x]) hleads
    exact ⟨m, ⟨x, hx, hk⟩, s, hs, hall⟩

end Kinds

/-! ### Sequences, choices and fixed texts -/

section Lists

variable {p q : Cursor}

theorem matches_sequence_cons {r : Regex} {rs : List Regex} :
    (sequence (r :: rs)).Matches p q ↔ ∃ m, r.Matches p m ∧ (sequence rs).Matches m q := by
  cases rs with
  | nil => simp [sequence, matches_empty]
  | cons s rs => exact matches_seq

theorem matches_sequence_append {rs ss : List Regex} :
    (sequence (rs ++ ss)).Matches p q ↔
      ∃ m, (sequence rs).Matches p m ∧ (sequence ss).Matches m q := by
  induction rs generalizing p with
  | nil => simp [sequence, matches_empty]
  | cons r rs ih =>
    rw [List.cons_append, matches_sequence_cons]
    simp only [ih, matches_sequence_cons]
    constructor
    · rintro ⟨a, ha, m, hm, hq⟩
      exact ⟨m, ⟨a, ha, hm⟩, hq⟩
    · rintro ⟨m, ⟨a, ha, hm⟩, hq⟩
      exact ⟨a, ha, m, hm, hq⟩

/-- A sequence matches around one of its members. -/
theorem matches_sequence_around {before after : List Regex} {r : Regex} :
    (sequence (before ++ r :: after)).Matches p q ↔
      ∃ a b, (sequence before).Matches p a ∧ r.Matches a b ∧ (sequence after).Matches b q := by
  simp only [matches_sequence_append, matches_sequence_cons, exists_and_left]

/-- A choice matches what one of the alternatives does. -/
theorem matches_choice {rs : List Regex} :
    (choice rs).Matches p q ↔ ∃ r ∈ rs, r.Matches p q := by
  induction rs with
  | nil => simp [choice, matches_single, CharClass.contains]
  | cons r rs ih =>
    cases rs with
    | nil => simp [choice]
    | cons s rs =>
      rw [show choice (r :: s :: rs) = alt r (choice (s :: rs)) from rfl, matches_alt, ih]
      simp

/-- Some characters of a class, but no more than a number of them. -/
theorem matches_atMost {k : CharClass} {n : Nat} :
    (atMost n (single k)).Matches p q ↔
      ∃ s, s.length ≤ n ∧ (∀ x ∈ s, k.contains x = true) ∧ p.Leads s q := by
  induction n generalizing p with
  | zero =>
    rw [atMost, matches_empty]
    constructor
    · rintro rfl
      exact ⟨[], Nat.le_refl 0, List.forall_mem_nil _, .refl q⟩
    · rintro ⟨s, hs, -, hleads⟩
      obtain rfl := List.eq_nil_of_length_eq_zero (Nat.le_zero.1 hs)
      exact (leads_nil_iff.1 hleads).symm
  | succ n ih =>
    simp only [atMost, maybe, matches_alt, matches_seq, matches_single, matches_empty, ih]
    constructor
    · rintro (⟨m, ⟨x, hx, hk⟩, s, hs, hall, hleads⟩ | rfl)
      · exact ⟨x :: s, Nat.succ_le_succ hs, List.forall_mem_cons.2 ⟨hk, hall⟩, hx.trans hleads⟩
      · exact ⟨[], Nat.zero_le _, List.forall_mem_nil _, .refl q⟩
    · rintro ⟨_ | ⟨x, s⟩, hs, hall, hleads⟩
      · exact .inr (leads_nil_iff.1 hleads).symm
      · obtain ⟨hk, hall⟩ := List.forall_mem_cons.1 hall
        obtain ⟨m, hx, hleads⟩ := Leads.exists_between (s := [x]) hleads
        exact .inl ⟨m, ⟨x, hx, hk⟩, s, Nat.le_of_succ_le_succ hs, hall, hleads⟩

/-- A fixed text matches itself only. -/
theorem matches_literal {t : Text} : (literal t).Matches p q ↔ p.Leads t q := by
  induction t generalizing p with
  | nil =>
    rw [literal, List.map_nil, sequence, matches_empty]
    constructor
    · rintro rfl
      exact Leads.refl q
    · exact fun h => (leads_nil_iff.1 h).symm
  | cons x t ih =>
    have hx : ∀ y, (CharClass.one x).contains y = true ↔ y = x := by
      intro y
      simp [CharClass.contains, CharClass.one, ClassItem.covers, eq_comm (a := x)]
    rw [literal, List.map_cons, matches_sequence_cons]
    simp only [matches_single, hx, exists_eq_right]
    constructor
    · rintro ⟨m, hm, hq⟩
      exact hm.trans (ih.1 hq)
    · intro h
      obtain ⟨m, hm, hq⟩ := Leads.exists_between (s := [x]) (r := t) h
      exact ⟨m, hm, ih.2 hq⟩

theorem matches_one {x : Char} : (single (.one x)).Matches p q ↔ p.Leads [x] q := by
  rw [← matches_literal]
  rfl

theorem contains_inLine_iff {x : Char} : CharClass.inLine.contains x = true ↔ x ≠ '\n' := by
  simp [CharClass.contains, CharClass.inLine, ClassItem.covers, eq_comm (a := x)]

theorem contains_blank_iff {x : Char} :
    CharClass.blank.contains x = true ↔ Text.isBlank x = true := by
  simp [CharClass.contains, CharClass.blank, ClassItem.covers]

theorem contains_word_iff {x : Char} :
    CharClass.word.contains x = true ↔ Text.isWord x = true := by
  simp [CharClass.contains, CharClass.word, ClassItem.covers]

theorem contains_notWord_iff {x : Char} :
    CharClass.notWord.contains x = true ↔ Text.isWord x = false := by
  simp [CharClass.contains, CharClass.notWord, ClassItem.covers]

theorem contains_digit_iff {x : Char} :
    CharClass.digit.contains x = true ↔ Text.isDigit x = true := by
  simp [CharClass.contains, CharClass.digit, ClassItem.covers]

theorem contains_notDigit_iff {x : Char} :
    CharClass.notDigit.contains x = true ↔ Text.isDigit x = false := by
  simp [CharClass.contains, CharClass.notDigit, ClassItem.covers]

/-- A run of characters of a line matches what has no newline. -/
theorem matches_inLine {lazy : Bool} :
    (many .inLine lazy).Matches p q ↔ ∃ s, '\n' ∉ s ∧ p.Leads s q := by
  have hline : ∀ s : Text, (∀ x ∈ s, CharClass.inLine.contains x = true) ↔ '\n' ∉ s := by
    intro s
    simp only [contains_inLine_iff]
    exact ⟨fun h hmem => h _ hmem rfl, fun h x hx heq => h (heq ▸ hx)⟩
  simp only [matches_many, hline, and_comm]

/-- The rest of a line matches what has no newline. -/
theorem matches_restOfLine : restOfLine.Matches p q ↔ ∃ s, '\n' ∉ s ∧ p.Leads s q :=
  matches_inLine

/-- A fixed text is found where it is a part. -/
theorem literal_isMatch_iff {t u : Text} : (literal t).isMatch u = true ↔ t <:+: u := by
  rw [isMatch_iff]
  simp only [matches_literal]
  constructor
  · rintro ⟨p, q, rfl, h⟩
    refine ⟨p.before.reverse, q.after, ?_⟩
    rw [Cursor.text, h.ahead, List.append_assoc]
  · rintro ⟨s, r, rfl⟩
    exact ⟨⟨s.reverse, t ++ r⟩, ⟨t.reverse ++ s.reverse, r⟩, by simp [Cursor.text], rfl, rfl⟩

end Lists

end Regex

end CartridgeAudit.Pattern
