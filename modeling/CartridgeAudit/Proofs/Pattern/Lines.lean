/-
CartridgeAudit/Proofs/Pattern/Lines.lean

Expressions that take lines.

An expression that ends in `Regex.restOfLine` takes all that is left of a line
(`lineRest_of_matchAt`), so the walk over its matches goes from line to line.
For the lines around a word this is all there is to it: the matches are the
lines that hold one of the words, each as a whole (`map_matchesIn_around`).  For a
word with what is behind it, the match in a line begins at the first place where
the word does, and is the only one of the line (`map_matchesIn_onward`).
-/
import CartridgeAudit.Proofs.Pattern.Iteration
import CartridgeAudit.Proofs.Text.Lines

namespace CartridgeAudit.Pattern

open Cursor

namespace Regex

variable {r : Regex} {c p q stop : Cursor} {rest : Text} {m : Match}

/-! ### The rest of a line -/

/-- The last place that the characters of a line lead to is the end of the line. -/
theorem getLast?_stops (before after : Text) :
    ∃ rest stop, (stops .inLine before after).getLast? = some stop ∧
      LineRest ⟨before, after⟩ rest stop := by
  induction after generalizing before with
  | nil => exact ⟨[], ⟨before, []⟩, rfl, .refl _, List.not_mem_nil, .inl rfl⟩
  | cons x xs ih =>
    rw [stops]
    by_cases hx : x = '\n'
    · subst hx
      rw [if_neg (by simp [contains_inLine_iff])]
      exact ⟨[], ⟨before, '\n' :: xs⟩, rfl, .refl _, List.not_mem_nil, .inr ⟨xs, rfl⟩⟩
    · obtain ⟨rest, stop, hlast, hrest⟩ := ih (x :: before)
      rw [if_pos (contains_inLine_iff.2 hx), List.getLast?_cons, hlast]
      refine ⟨x :: rest, stop, rfl, (Leads.cons before x xs).trans hrest.leads, ?_, hrest.ends⟩
      exact List.not_mem_cons_of_ne_of_not_mem (Ne.symm hx) hrest.not_mem

/-- First of all, the whole rest of a line is taken. -/
theorem head?_restOfLine (c : Cursor) :
    ∃ rest stop, (restOfLine.outcomes c).head? = some ⟨stop, []⟩ ∧ c.LineRest rest stop := by
  obtain ⟨rest, stop, hlast, hrest⟩ := getLast?_stops c.before c.after
  refine ⟨rest, stop, ?_, hrest⟩
  simp [restOfLine, run, outcomes, List.head?_reverse, hlast]

/-- An expression that ends in the rest of a line takes all of it. -/
theorem lineRest_of_matchAt (h : (r ++ restOfLine).matchAt c = some m) :
    ∃ a rest, r.Matches c a ∧ a.LineRest rest m.stop := by
  obtain ⟨o, ho, rfl⟩ := Option.map_eq_some_iff.1 h
  have hseq : (r ++ restOfLine).outcomes c =
      (r.outcomes c).flatMap fun a => (restOfLine.outcomes a.stop).map (·.behind a.groups) := rfl
  rw [hseq] at ho
  cases hr : r.outcomes c with
  | nil => simp [hr] at ho
  | cons a rest =>
    obtain ⟨left, stop, hhead, hleft⟩ := head?_restOfLine a.stop
    rw [hr, List.flatMap_cons, List.head?_append, List.head?_map, hhead] at ho
    obtain rfl := Option.some.inj ho
    exact ⟨a.stop, left, ⟨a, hr ▸ List.mem_cons_self, rfl⟩, hleft⟩

/-- What stays in a line and then takes the rest of it ends where the line does. -/
theorem stop_eq_of_matchAt (hm : (r ++ restOfLine).matchAt c = some m)
    (hstays : ∀ a, r.Matches c a → ∃ s, '\n' ∉ s ∧ c.Leads s a) (hline : c.LineRest rest stop) :
    m.stop = stop := by
  obtain ⟨a, left, hmatch, hleft⟩ := lineRest_of_matchAt hm
  obtain ⟨s, hs, hca⟩ := hstays a hmatch
  have hwhole : c.LineRest (s ++ left) m.stop := by
    refine ⟨hca.trans hleft.leads, ?_, hleft.ends⟩
    simp only [List.mem_append, not_or]
    exact ⟨hs, hleft.not_mem⟩
  exact (hwhole.unique hline).2

/-! ### The line of a place -/

/-- From the start of its line on, no newline leads to a place. -/
theorem exists_lineStart (u : Cursor) :
    ∃ c s, Anchor.lineStart.holds c = true ∧ '\n' ∉ s ∧ c.Leads s u := by
  obtain ⟨before, after⟩ := u
  induction before generalizing after with
  | nil => exact ⟨⟨[], after⟩, [], rfl, List.not_mem_nil, .refl _⟩
  | cons x xs ih =>
    by_cases hx : x = '\n'
    · subst hx
      exact ⟨⟨'\n' :: xs, after⟩, [], rfl, List.not_mem_nil, .refl _⟩
    · obtain ⟨c, s, hstart, hmem, hleads⟩ := ih (x :: after)
      refine ⟨c, s ++ [x], hstart, ?_, hleads.trans (Leads.cons xs x after)⟩
      simpa [hmem, eq_comm] using hx

theorem lineEnd_holds_iff :
    Anchor.lineEnd.holds c = true ↔ c.after = [] ∨ ∃ xs, c.after = '\n' :: xs := by
  obtain ⟨before, _ | ⟨x, xs⟩⟩ := c <;> simp [Anchor.holds]

/-- Where a line ends, nothing but a newline is ahead. -/
theorem not_lineEnd_of_leads (h : p.Leads rest q) (hrest : '\n' ∉ rest) (hc : p ≤ c) (hq : c < q) :
    Anchor.lineEnd.holds c = false := by
  obtain ⟨s, t, rfl, -, ht⟩ := h.split_of_le hc hq.le
  obtain ⟨x, t, rfl⟩ := List.exists_cons_of_ne_nil (ht.lt_iff.1 hq)
  rw [Bool.eq_false_iff, Ne, lineEnd_holds_iff, ht.ahead]
  rintro (hnil | ⟨xs, hcons⟩)
  · cases hnil
  · obtain ⟨rfl, -⟩ := List.cons.inj hcons
    exact hrest (List.mem_append_right s List.mem_cons_self)

/-! ### Lines around a word -/

/-- An expression matches certain words, which have no newline. -/
structure StandsFor (r : Regex) (words : List Text) : Prop where
  isProper : r.isProper = true
  matches_iff : ∀ p q, r.Matches p q ↔ ∃ w ∈ words, p.Leads w q
  not_mem : ∀ w ∈ words, '\n' ∉ w

theorem standsFor_literal {w : Text} (hne : w ≠ []) (hline : '\n' ∉ w) :
    (literal w).StandsFor [w] where
  isProper := by
    obtain ⟨x, t, rfl⟩ := List.exists_cons_of_ne_nil hne
    rw [literal, isProper_sequence]
    rfl
  matches_iff p q := by simp [matches_literal]
  not_mem := by simpa using hline

/-- A word with all of the line around it. -/
def around (r : Regex) : Regex := restOfLine ++ r ++ restOfLine

/-- Whether one of the words is a part of a text. -/
def holdsAny (words : List Text) (t : Text) : Bool := words.any t.contains

theorem holdsAny_iff {words : List Text} {t : Text} :
    holdsAny words t = true ↔ ∃ w ∈ words, w <:+: t := by
  simp only [holdsAny, List.any_eq_true, Text.contains_iff]

section

variable {words : List Text} (h : r.StandsFor words)

include h

theorem StandsFor.matches_around_iff :
    (around r).Matches p q ↔
      ∃ s w u, w ∈ words ∧ '\n' ∉ s ++ (w ++ u) ∧ p.Leads (s ++ (w ++ u)) q := by
  show (seq (seq restOfLine r) restOfLine).Matches p q ↔ _
  simp only [matches_seq, matches_restOfLine, h.matches_iff, List.mem_append, not_or]
  constructor
  · rintro ⟨b, ⟨a, ⟨s, hs, hpa⟩, w, hw, hab⟩, u, hu, hbq⟩
    exact ⟨s, w, u, hw, ⟨hs, h.not_mem w hw, hu⟩, hpa.trans (hab.trans hbq)⟩
  · rintro ⟨s, w, u, hw, ⟨hs, -, hu⟩, hpq⟩
    obtain ⟨a, hpa, haq⟩ := hpq.exists_between
    obtain ⟨b, hab, hbq⟩ := haq.exists_between
    exact ⟨b, ⟨a, ⟨s, hs, hpa⟩, w, hw, hab⟩, u, hu, hbq⟩

/-- A line with one of the words is taken as a whole. -/
theorem StandsFor.exists_matchAt (hline : c.LineRest rest stop)
    (hwords : holdsAny words rest = true) : ∃ m, (around r).matchAt c = some m ∧ m.stop = stop := by
  obtain ⟨w, hw, s, u, hsu⟩ := holdsAny_iff.1 hwords
  rw [List.append_assoc] at hsu
  obtain ⟨m, hm⟩ := Regex.exists_matchAt
    (h.matches_around_iff.2 ⟨s, w, u, hw, hsu ▸ hline.not_mem, hsu ▸ hline.leads⟩)
  refine ⟨m, hm, stop_eq_of_matchAt hm (fun a hmatch => ?_) hline⟩
  obtain ⟨b, hb, hword⟩ := matches_seq.1 hmatch
  obtain ⟨s', hs', hcb⟩ := matches_restOfLine.1 hb
  obtain ⟨w', hw', hba⟩ := (h.matches_iff b a).1 hword
  refine ⟨s' ++ w', ?_, hcb.trans hba⟩
  simp only [List.mem_append, not_or]
  exact ⟨hs', h.not_mem w' hw'⟩

theorem StandsFor.matchAt_eq_none (hline : c.LineRest rest stop)
    (hwords : holdsAny words rest = false) : (around r).matchAt c = none := by
  rw [matchAt_eq_none_iff]
  intro q hq
  obtain ⟨s, w, u, hw, hmem, hleads⟩ := h.matches_around_iff.1 hq
  obtain ⟨t, v, rfl, ht, -⟩ := hline.leads.split_of_le hleads.le (hline.le_stop hleads hmem)
  obtain rfl := ht.upTo_eq.symm.trans hleads.upTo_eq
  have hin : w <:+: s ++ (w ++ u) ++ v := ⟨s, u ++ v, by simp⟩
  rw [holdsAny_iff.2 ⟨w, hw, hin⟩] at hwords
  cases hwords

/-- Nothing is found at the end of a line. -/
theorem StandsFor.holdsAny_nil : holdsAny words [] = false := by
  rw [← Bool.not_eq_true, holdsAny_iff]
  rintro ⟨w, hw, hnil⟩
  obtain rfl := List.infix_nil.1 hnil
  have hmatches := (h.matches_iff (Text.start []) _).2 ⟨[], hw, .refl _⟩
  exact lt_irrefl _ (lt_of_matches h.isProper hmatches)

end

end Regex

/-- The line that a match takes. -/
def Match.line (m : Match) : Line := ⟨m.text, m.start.offset⟩

namespace Regex

variable {r : Regex} {words : List Text} {c stop : Cursor} {rest : Text}

theorem line_of_matchAt {m : Match} (hm : r.matchAt c = some m) (hline : c.LineRest rest m.stop) :
    m.line = ⟨rest, c.offset⟩ := by
  rw [Match.line, Match.text, (of_matchAt_eq_some hm).1, hline.leads.upTo_eq]

/-- Where the walk over each line finds at most one match, and none at its end, the matches
are found line by line. -/
theorem map_matchesFrom_eq_filterMap (hr : r.isProper = true) {f : Line → Option Line}
    (hwalk : ∀ c rest stop, c.LineRest rest stop → (r.matchesFrom c).map Match.line =
      (f ⟨rest, c.offset⟩).toList ++ (r.matchesFrom stop).map Match.line)
    (hend : ∀ c xs, c.after = '\n' :: xs → r.matchAt c = none) (c : Cursor) :
    (r.matchesFrom c).map Match.line = c.lines.filterMap f := by
  induction c using lines_induction with
  | last c rest stop hline hnil =>
    obtain ⟨before, after⟩ := stop
    obtain rfl : after = [] := hnil
    rw [hwalk c rest _ hline, matchesFrom_at_end hr, hline.lines_of_end rfl, List.filterMap_cons,
      List.filterMap_nil]
    cases f ⟨rest, c.offset⟩ <;> rfl
  | newline c rest stop xs hline hcons ih =>
    have hnone := hend stop xs hcons
    obtain ⟨before, after⟩ := stop
    obtain rfl : after = '\n' :: xs := hcons
    rw [hwalk c rest _ hline, matchesFrom_of_none hnone, hline.lines_of_newline rfl,
      List.filterMap_cons, ← ih]
    cases f ⟨rest, c.offset⟩ <;> rfl

section

variable (h : r.StandsFor words)

include h

theorem StandsFor.isProper_around : (around r).isProper = true := by
  show ((false || r.isProper) || false) = true
  rw [h.isProper]
  rfl

/-- The walk over one line. -/
theorem StandsFor.map_matchesFrom_line (hline : c.LineRest rest stop) :
    ((around r).matchesFrom c).map Match.line =
      (Option.guard (fun l => holdsAny words l.text) ⟨rest, c.offset⟩).toList ++
        ((around r).matchesFrom stop).map Match.line := by
  cases hwords : holdsAny words rest with
  | true =>
    obtain ⟨m, hm, rfl⟩ := h.exists_matchAt hline hwords
    rw [matchesFrom_of_some h.isProper_around hm, List.map_cons, line_of_matchAt hm hline,
      Option.guard, if_pos hwords]
    rfl
  | false =>
    rw [matchesFrom_of_leads hline.leads, Option.guard, if_neg (by simp [hwords])]
    · rfl
    · intro d hd hlt
      obtain ⟨s, left, rfl, hleft⟩ := hline.of_le hd hlt.le
      refine h.matchAt_eq_none hleft ?_
      rw [← Bool.not_eq_true, holdsAny_iff] at hwords ⊢
      rintro ⟨w, hw, hin⟩
      exact hwords ⟨w, hw, hin.trans (List.suffix_append s left).isInfix⟩

theorem StandsFor.map_matchesFrom_around (c : Cursor) :
    ((around r).matchesFrom c).map Match.line =
      c.lines.filter fun l => holdsAny words l.text := by
  rw [map_matchesFrom_eq_filterMap h.isProper_around fun c rest stop => h.map_matchesFrom_line,
    List.filterMap_eq_filter]
  intro c xs hcons
  exact h.matchAt_eq_none ⟨.refl c, List.not_mem_nil, .inr ⟨xs, hcons⟩⟩ h.holdsAny_nil

/-- **The lines around a word** are the lines that hold it, each as a whole. -/
theorem StandsFor.map_matchesIn_around (t : Text) :
    ((around r).matchesIn t).map Match.line = t.lines.filter fun l => holdsAny words l.text := by
  rw [matchesIn_eq_matchesFrom, h.map_matchesFrom_around, lines_start]

end

/-! ### A word and what is behind it in its line -/

/-- A word with all of the line that is behind it. -/
def onward (r : Regex) : Regex := r ++ restOfLine

section

variable {w : Text} (h : r.StandsFor [w])

include h

theorem StandsFor.matches_onward_iff {p q : Cursor} :
    (onward r).Matches p q ↔ ∃ u, '\n' ∉ w ++ u ∧ p.Leads (w ++ u) q := by
  show (seq r restOfLine).Matches p q ↔ _
  simp only [matches_seq, matches_restOfLine, h.matches_iff, List.mem_singleton, exists_eq_left,
    List.mem_append, not_or]
  constructor
  · rintro ⟨a, hpa, u, hu, haq⟩
    exact ⟨u, ⟨h.not_mem w List.mem_cons_self, hu⟩, hpa.trans haq⟩
  · rintro ⟨u, ⟨-, hu⟩, hpq⟩
    obtain ⟨a, hpa, haq⟩ := hpq.exists_between
    exact ⟨a, hpa, u, hu, haq⟩

/-- In a line, there is a match where the word begins. -/
theorem StandsFor.exists_matchAt_onward_iff (hline : c.LineRest rest stop) :
    (∃ q, (onward r).Matches c q) ↔ w <+: rest := by
  simp only [h.matches_onward_iff]
  constructor
  · rintro ⟨q, u, hmem, hleads⟩
    obtain ⟨t, v, rfl, ht, -⟩ := hline.leads.split_of_le hleads.le (hline.le_stop hleads hmem)
    obtain rfl := ht.upTo_eq.symm.trans hleads.upTo_eq
    exact ⟨u ++ v, (List.append_assoc w u v).symm⟩
  · rintro ⟨u, rfl⟩
    exact ⟨stop, u, hline.not_mem, hline.leads⟩

/-- Where the word begins, the rest of the line is taken. -/
theorem StandsFor.exists_matchAt_onward (hline : c.LineRest rest stop) (hw : w <+: rest) :
    ∃ m, (onward r).matchAt c = some m ∧ m.stop = stop := by
  obtain ⟨q, hq⟩ := (h.exists_matchAt_onward_iff hline).2 hw
  obtain ⟨m, hm⟩ := Regex.exists_matchAt hq
  refine ⟨m, hm, stop_eq_of_matchAt hm (fun a hword => ?_) hline⟩
  obtain ⟨w', hw', hca⟩ := (h.matches_iff c a).1 hword
  exact ⟨w', h.not_mem w' hw', hca⟩

theorem StandsFor.matchAt_onward_eq_none (hline : c.LineRest rest stop) (hw : ¬ w <+: rest) :
    (onward r).matchAt c = none := by
  rw [matchAt_eq_none_iff]
  exact fun q hq => hw ((h.exists_matchAt_onward_iff hline).1 ⟨q, hq⟩)

/-- The word is not empty. -/
theorem StandsFor.not_prefix_nil : ¬ w <+: [] := by
  intro hnil
  have hany := h.holdsAny_nil
  rw [← Bool.not_eq_true, holdsAny_iff] at hany
  exact hany ⟨w, List.mem_cons_self, hnil.isInfix⟩

theorem StandsFor.isProper_onward : (onward r).isProper = true := by
  show (r.isProper || false) = true
  rw [h.isProper]
  rfl

/-- The walk over one line comes to the first place where the word begins, and from there to
the end of the line. -/
theorem StandsFor.map_matchesFrom_line_onward (hline : c.LineRest rest stop) :
    ((onward r).matchesFrom c).map Match.line =
      (Line.fromFirst w ⟨rest, c.offset⟩).toList ++
        ((onward r).matchesFrom stop).map Match.line := by
  cases hfind : Text.find? w rest with
  | none =>
    have hword : ¬ w <:+: rest := by
      rw [← Text.contains_iff, Text.contains, hfind]
      exact Bool.false_ne_true
    rw [Line.fromFirst, hfind, matchesFrom_of_leads hline.leads]
    · rfl
    · intro d hd hlt
      obtain ⟨s, left, rfl, hleft⟩ := hline.of_le hd hlt.le
      refine h.matchAt_onward_eq_none hleft fun hw => hword ?_
      exact hw.isInfix.trans (List.suffix_append s left).isInfix
  | some first =>
    obtain ⟨⟨s, hs⟩, hw, hfirst⟩ := Text.findFrom_eq_some_iff.1 hfind
    obtain rfl : rest = s ++ first.after := hs.ahead
    obtain ⟨d, hcd, hstop⟩ := hline.leads.exists_between
    have hd : d.LineRest first.after stop :=
      ⟨hstop, fun hmem => hline.not_mem (List.mem_append_right s hmem), hline.ends⟩
    obtain ⟨m, hm, rfl⟩ := h.exists_matchAt_onward hd hw
    have hoffset : d.offset = c.offset + first.offset := by
      rw [hcd.offset_eq, hs.offset_eq]
      simp [Cursor.offset]
    rw [matchesFrom_of_leads hcd, matchesFrom_of_some h.isProper_onward hm, List.map_cons,
      line_of_matchAt hm hd, hoffset, Line.fromFirst, hfind]
    · rfl
    · -- a match before that place begins with the word, too
      intro e he hlt
      obtain ⟨s', t, rfl, -, ht⟩ := hcd.split_of_le he hlt.le
      obtain ⟨n, hn, hnt⟩ := hs.exists_between
      have hleft : e.LineRest (t ++ first.after) m.stop := by
        refine ⟨ht.trans hstop, fun hmem => hline.not_mem ?_, hline.ends⟩
        rw [List.append_assoc]
        exact List.mem_append_right s' hmem
      refine h.matchAt_onward_eq_none hleft fun hprefix => ?_
      have hle := hfirst n hn.le (hnt.ahead ▸ hprefix)
      exact (hnt.lt_iff.2 (ht.lt_iff.1 hlt)).not_ge hle

/-- **A word with what is behind it** is found once in each line that holds it, at the first
place where it begins. -/
theorem StandsFor.map_matchesIn_onward (t : Text) :
    ((onward r).matchesIn t).map Match.line = t.lines.filterMap (Line.fromFirst w) := by
  rw [matchesIn_eq_matchesFrom, map_matchesFrom_eq_filterMap h.isProper_onward
    fun c rest stop => h.map_matchesFrom_line_onward, lines_start]
  intro c xs hcons
  exact h.matchAt_onward_eq_none ⟨.refl c, List.not_mem_nil, .inr ⟨xs, hcons⟩⟩ h.not_prefix_nil

end

end Regex

end CartridgeAudit.Pattern
