/-
CartridgeAudit/Proofs/Pattern/Iteration.lean

The matches of a text, one after the other.

Matches are found from left to right, and one goes on behind the last one.  For
an expression whose matches all take a character this is a walk with two kinds
of steps: over a place without a match to the next one, and from a place with a
match to the end of that match (`matchesFrom_of_none`, `matchesFrom_of_some`).
Whatever is said about all matches follows the walk (`matchesFrom_induction`):

* no match begins before the end of an earlier one
  (`pairwise_stop_le_matchesIn`);
* every place where the expression matches lies in one of the matches
  (`exists_mem_matchesIn_around`), so a match may be passed over only for one
  that overlaps it;
* if no two matches can overlap, none is passed over (`matchesIn_eq_filterMap`).
-/
import CartridgeAudit.Proofs.Pattern.Captures
import Mathlib.Data.List.Pairwise

namespace CartridgeAudit.Pattern

open Cursor

namespace Regex

variable {r : Regex} {p q : Cursor} {m : Match}

/-! ### The match at a place -/

theorem matchAt_eq_none_iff : r.matchAt p = none ↔ ∀ q, ¬ r.Matches p q := by
  rw [matchAt, Option.map_eq_none_iff, List.head?_eq_none_iff]
  constructor
  · rintro hnil q ⟨o, ho, -⟩
    rw [hnil] at ho
    cases ho
  · intro h
    by_contra hne
    obtain ⟨o, ho⟩ := List.exists_mem_of_ne_nil _ hne
    exact h o.stop ⟨o, ho, rfl⟩

/-- The match at a place begins there, and is an outcome. -/
theorem of_matchAt_eq_some (h : r.matchAt p = some m) :
    m.start = p ∧ ⟨m.stop, m.groups⟩ ∈ r.outcomes p := by
  obtain ⟨o, ho, rfl⟩ := Option.map_eq_some_iff.1 h
  exact ⟨rfl, List.mem_of_mem_head? ho⟩

theorem matches_of_matchAt (h : r.matchAt p = some m) : r.Matches p m.stop :=
  ⟨_, (of_matchAt_eq_some h).2, rfl⟩

theorem exists_matchAt (h : r.Matches p q) : ∃ m, r.matchAt p = some m := by
  rw [← Option.ne_none_iff_exists']
  exact fun hnone => matchAt_eq_none_iff.1 hnone q h

theorem lt_stop_of_matchAt (hr : r.isProper = true) (h : r.matchAt p = some m) : p < m.stop :=
  lt_of_matches hr (matches_of_matchAt h)

/-- The capture at the front of a match. -/
theorem CapturesFirst.of_matchAt {i : Nat} {P : Cursor → Cursor → Cursor → Prop}
    (hr : r.CapturesFirst i P) (h : r.matchAt p = some m) :
    ∃ b, m.group? i = some (p, b) ∧ P p b m.stop :=
  hr p _ (of_matchAt_eq_some h).2

/-! ### The shortest way ahead -/

/-- How a sequence is bracketed does not matter. -/
theorem matchAt_seq_assoc (r s u : Regex) (p : Cursor) :
    (seq (seq r s) u).matchAt p = (seq r (seq s u)).matchAt p := by
  have hfirst : ∀ r : Regex, r.matchAt p =
      (r.firstWith (fun q => some (q, [])) p).map fun y => ⟨p, y.1, y.2⟩ := by
    intro r
    rw [firstWith_some, matchAt, Option.map_map]
    rfl
  rw [hfirst, hfirst, firstWith_seq, firstWith_seq, firstWith_seq, funext (firstWith_seq s u _)]

/-- A run that is as short as possible ends at the first place from which what
follows can be matched. -/
theorem of_matchAt_lazy {k : CharClass} (h : (seq (many k true) r).matchAt p = some m) :
    ∃ s d, (∀ x ∈ s, k.contains x = true) ∧ p.Leads s d ∧
      r.matchAt d = some ⟨d, m.stop, m.groups⟩ ∧ ∀ c, p ≤ c → c < d → r.matchAt c = none := by
  have hpreferred : ∀ before after, (seq (many k true) r).outcomes ⟨before, after⟩ =
      (stops k before after).flatMap r.outcomes := by
    intro before after
    have hbehind : Outcome.behind [] = id := by
      funext o
      simp [Outcome.behind]
    simp [outcomes, List.flatMap_map, hbehind]
  obtain ⟨before, after⟩ := p
  obtain ⟨o, ho, rfl⟩ := Option.map_eq_some_iff.1 h
  rw [hpreferred] at ho
  clear h
  induction after generalizing before with
  | nil =>
    rw [stops, List.flatMap_cons, List.flatMap_nil, List.append_nil] at ho
    refine ⟨[], _, List.forall_mem_nil _, .refl _, by rw [matchAt, ho]; rfl, ?_⟩
    exact fun c hc hlt => absurd hc (not_le_of_gt hlt)
  | cons x xs ih =>
    rw [stops, List.flatMap_cons, List.head?_append] at ho
    cases hfirst : (r.outcomes ⟨before, x :: xs⟩).head? with
    | some o' =>
      rw [hfirst] at ho
      obtain rfl := Option.some.inj ho
      refine ⟨[], _, List.forall_mem_nil _, .refl _, by rw [matchAt, hfirst]; rfl, ?_⟩
      exact fun c hc hlt => absurd hc (not_le_of_gt hlt)
    | none =>
      rw [hfirst, Option.none_or] at ho
      split at ho
      · next hx =>
        obtain ⟨s, d, hs, hleads, hmatch, hnone⟩ := ih _ ho
        refine ⟨x :: s, d, List.forall_mem_cons.2 ⟨hx, hs⟩, (Leads.cons before x xs).trans hleads,
          hmatch, fun c hc hlt => ?_⟩
        rcases cons_le_iff.1 hc with rfl | hc
        · rw [matchAt, hfirst]
          rfl
        · exact hnone c hc hlt
      · cases ho

/-! ### The walk over a text -/

/-- The matches from a place on. -/
def matchesFrom (r : Regex) (p : Cursor) : List Match :=
  pick 0 false ((places p.before p.after).map r.matchAt)

theorem matchesIn_eq_matchesFrom (r : Regex) (t : Text) :
    r.matchesIn t = r.matchesFrom (Text.start t) := matchesIn_eq r t

/-- The places of a match are passed over. -/
theorem pick_places {s : Text} (h : p.Leads s q) (glued : Bool) (f : Cursor → Option Match) :
    pick s.length glued ((places p.before p.after).map f) =
      pick 0 glued ((places q.before q.after).map f) := by
  induction s generalizing p with
  | nil =>
    obtain rfl := leads_nil_iff.1 h
    rfl
  | cons x s ih =>
    obtain ⟨before, after⟩ := p
    obtain ⟨xs, rfl, hrest⟩ := leads_cons_iff.1 h
    rw [places_cons, List.map_cons, List.length_cons, pick]
    exact ih hrest

theorem pick_of_length {n : Nat} {glued : Bool} {rest : List (Option Match)}
    (h : m.length = n + 1) : pick 0 glued (some m :: rest) = m :: pick n true rest := by
  rw [pick, h]

/-- Where the next match is not empty, it does not matter that one ended here. -/
theorem pick_glued {found : List (Option Match)} (h : ∀ m, some m ∈ found → m.length ≠ 0) :
    pick 0 true found = pick 0 false found := by
  cases found with
  | nil => rfl
  | cons x rest =>
    cases x with
    | none => rfl
    | some m =>
      obtain ⟨n, hn⟩ := Nat.exists_eq_succ_of_ne_zero (h m List.mem_cons_self)
      rw [pick_of_length hn, pick_of_length hn]

theorem matchesFrom_of_none {before : Text} {x : Char} {xs : Text}
    (h : r.matchAt ⟨before, x :: xs⟩ = none) :
    r.matchesFrom ⟨before, x :: xs⟩ = r.matchesFrom ⟨x :: before, xs⟩ := by
  rw [matchesFrom, places_cons, List.map_cons, h, pick]
  rfl

/-- Over a stretch where no match begins the walk goes on behind it. -/
theorem matchesFrom_of_leads {s : Text} (h : p.Leads s q)
    (hnone : ∀ c, p ≤ c → c < q → r.matchAt c = none) : r.matchesFrom p = r.matchesFrom q := by
  induction s generalizing p with
  | nil =>
    obtain rfl := leads_nil_iff.1 h
    rfl
  | cons x s ih =>
    obtain ⟨before, after⟩ := p
    obtain ⟨xs, rfl, hrest⟩ := leads_cons_iff.1 h
    have hfirst := lt_cons before x xs
    rw [matchesFrom_of_none (hnone _ le_rfl (hfirst.trans_le hrest.le))]
    exact ih hrest fun c hc hcq => hnone c (hfirst.le.trans hc) hcq

section

variable (hr : r.isProper = true)

include hr

theorem length_matchAt (h : r.matchAt p = some m) : ∃ s, p.Leads s m.stop ∧ m.length = s.length ∧
    s ≠ [] := by
  have hlt := lt_stop_of_matchAt hr h
  obtain ⟨s, hs⟩ := hlt.le
  refine ⟨s, hs, ?_, hs.lt_iff.1 hlt⟩
  rw [Match.length, (of_matchAt_eq_some h).1, distance, hs.behind]
  simp

theorem matchAt_at_end (before : Text) : r.matchAt ⟨before, []⟩ = none := by
  rw [matchAt_eq_none_iff]
  intro q hq
  obtain rfl := nil_le_iff.1 (le_of_matches hq)
  exact lt_irrefl _ (lt_of_matches hr hq)

theorem matchesFrom_at_end (before : Text) : r.matchesFrom ⟨before, []⟩ = [] := by
  rw [matchesFrom, places_nil, List.map_singleton, matchAt_at_end hr]
  rfl

theorem matchesFrom_of_some (h : r.matchAt p = some m) :
    r.matchesFrom p = m :: r.matchesFrom m.stop := by
  obtain ⟨s, hs, hlength, hne⟩ := length_matchAt hr h
  obtain ⟨x, s, rfl⟩ := List.exists_cons_of_ne_nil hne
  obtain ⟨before, after⟩ := p
  obtain ⟨xs, rfl, hrest⟩ := leads_cons_iff.1 hs
  rw [matchesFrom, places_cons, List.map_cons, h, pick_of_length hlength, pick_places hrest,
    pick_glued, matchesFrom]
  intro n hn
  obtain ⟨c, -, hc⟩ := List.mem_map.1 hn
  obtain ⟨u, -, hu, hne⟩ := length_matchAt hr hc
  rw [hu]
  exact fun hzero => hne (List.eq_nil_of_length_eq_zero hzero)

/-- Induction along the walk: at the end of the text, over a place without a
match, and over a match. -/
@[elab_as_elim]
theorem matchesFrom_induction {P : Cursor → List Match → Prop}
    (finish : ∀ before, r.matchAt ⟨before, []⟩ = none → P ⟨before, []⟩ [])
    (skip : ∀ before x xs, r.matchAt ⟨before, x :: xs⟩ = none →
      P ⟨x :: before, xs⟩ (r.matchesFrom ⟨x :: before, xs⟩) →
      P ⟨before, x :: xs⟩ (r.matchesFrom ⟨x :: before, xs⟩))
    (take : ∀ p m, r.matchAt p = some m → P m.stop (r.matchesFrom m.stop) →
      P p (m :: r.matchesFrom m.stop))
    (p : Cursor) : P p (r.matchesFrom p) := by
  -- less is ahead after each step
  induction hn : p.after.length using Nat.strongRecOn generalizing p with
  | _ n ih =>
    cases hm : r.matchAt p with
    | some m =>
      rw [matchesFrom_of_some hr hm]
      have hshorter := length_after_lt_of_lt (lt_stop_of_matchAt hr hm)
      exact take p m hm (ih _ (hn ▸ hshorter) m.stop rfl)
    | none =>
      obtain ⟨before, _ | ⟨x, xs⟩⟩ := p
      · rw [matchesFrom_at_end hr]
        exact finish before hm
      · rw [matchesFrom_of_none hm]
        exact skip before x xs hm (ih _ (by rw [← hn]; exact Nat.lt_succ_self _) _ rfl)

/-! ### What the walk finds -/

/-- No match begins before the end of an earlier one. -/
theorem pairwise_stop_le_matchesFrom (p : Cursor) :
    (∀ m ∈ r.matchesFrom p, p ≤ m.start) ∧
      (r.matchesFrom p).Pairwise fun m n => m.stop ≤ n.start := by
  induction p using matchesFrom_induction hr with
  | finish before _ => simp
  | skip before x xs _ ih =>
    exact ⟨fun m hm => (lt_cons before x xs).le.trans (ih.1 m hm), ih.2⟩
  | take p m hm ih =>
    have hlt := lt_stop_of_matchAt hr hm
    refine ⟨?_, List.pairwise_cons.2 ⟨ih.1, ih.2⟩⟩
    intro n hn
    rcases List.mem_cons.1 hn with rfl | hn
    · exact (of_matchAt_eq_some hm).1.ge
    · exact hlt.le.trans (ih.1 n hn)

/-- Every place where the expression matches lies in one of the matches. -/
theorem exists_mem_matchesFrom_around (p : Cursor) : ∀ c q, p ≤ c → r.Matches c q →
    ∃ m ∈ r.matchesFrom p, m.start ≤ c ∧ c < m.stop := by
  induction p using matchesFrom_induction hr with
  | finish before hnone =>
    intro c q hc hq
    obtain rfl := nil_le_iff.1 hc
    exact absurd hq (matchAt_eq_none_iff.1 hnone q)
  | skip before x xs hnone ih =>
    intro c q hc hq
    rcases cons_le_iff.1 hc with rfl | hc
    · exact absurd hq (matchAt_eq_none_iff.1 hnone q)
    · exact ih c q hc hq
  | take p m hm ih =>
    intro c q hc hq
    -- the place is in this match or behind it
    rcases lt_or_le_of_le (lt_stop_of_matchAt hr hm).le hc with hlt | hle
    · exact ⟨m, List.mem_cons_self, (of_matchAt_eq_some hm).1.le.trans hc, hlt⟩
    · obtain ⟨n, hn, haround⟩ := ih c q hle hq
      exact ⟨n, List.mem_cons_of_mem m hn, haround⟩

/-- **Matches do not overlap.** -/
theorem pairwise_stop_le_matchesIn (t : Text) :
    (r.matchesIn t).Pairwise fun m n => m.stop ≤ n.start := by
  rw [matchesIn_eq_matchesFrom]
  exact (pairwise_stop_le_matchesFrom hr _).2

/-- Of two matches, one ends before the other begins. -/
theorem stop_le_start_or {t : Text} {n : Match} (hm : m ∈ r.matchesIn t) (hn : n ∈ r.matchesIn t)
    (hne : m ≠ n) : m.stop ≤ n.start ∨ n.stop ≤ m.start := by
  let apart (m n : Match) : Prop := m.stop ≤ n.start ∨ n.stop ≤ m.start
  have hsymm : Std.Symm apart := ⟨fun _ _ => Or.symm⟩
  have hall : (r.matchesIn t).Pairwise apart := (pairwise_stop_le_matchesIn hr t).imp Or.inl
  exact hall.forall hm hn hne

/-- **No match is missed** but for one that overlaps it. -/
theorem exists_mem_matchesIn_around (h : r.Matches p q) :
    ∃ m ∈ r.matchesIn p.text, m.start ≤ p ∧ p < m.stop := by
  rw [matchesIn_eq_matchesFrom]
  exact exists_mem_matchesFrom_around hr _ p q p.start_le h

end

/-! ### Matches that cannot overlap -/

theorem filterMap_places {s : Text} {f : Cursor → Option α} (h : p.Leads s q)
    (hnone : ∀ c, p ≤ c → c < q → f c = none) :
    (places p.before p.after).filterMap f = (places q.before q.after).filterMap f := by
  induction s generalizing p with
  | nil =>
    obtain rfl := leads_nil_iff.1 h
    rfl
  | cons x s ih =>
    obtain ⟨before, after⟩ := p
    obtain ⟨xs, rfl, hrest⟩ := leads_cons_iff.1 h
    have hfirst := lt_cons before x xs
    rw [places_cons, List.filterMap_cons, hnone _ le_rfl (hfirst.trans_le hrest.le)]
    exact ih hrest fun c hc hcq => hnone c (hfirst.le.trans hc) hcq

theorem filter_places {s : Text} {f : Cursor → Bool} (h : p.Leads s q)
    (hnone : ∀ c, p ≤ c → c < q → f c = false) :
    (places p.before p.after).filter f = (places q.before q.after).filter f := by
  rw [← List.filterMap_eq_filter]
  refine filterMap_places h fun c hc hcq => ?_
  rw [Option.guard, if_neg (by simp [hnone c hc hcq])]

/-- **If no two matches can overlap**, the matches of a text are those at all
its places. -/
theorem matchesIn_eq_filterMap (hr : r.isProper = true)
    (hapart : ∀ p q c, r.Matches p q → p < c → c < q → r.matchAt c = none) (t : Text) :
    r.matchesIn t = (places [] t).filterMap r.matchAt := by
  have hwalk : ∀ p, r.matchesFrom p = (places p.before p.after).filterMap r.matchAt := by
    intro p
    induction p using matchesFrom_induction hr with
    | finish before hnone => simp [hnone]
    | skip before x xs hnone ih => rw [places_cons, List.filterMap_cons, hnone, ih]
    | take p m hm ih =>
      obtain ⟨s, hs, -, hne⟩ := length_matchAt hr hm
      obtain ⟨x, s, rfl⟩ := List.exists_cons_of_ne_nil hne
      obtain ⟨before, after⟩ := p
      obtain ⟨xs, rfl, hrest⟩ := leads_cons_iff.1 hs
      have hfirst := lt_cons before x xs
      rw [places_cons, List.filterMap_cons, hm, ih]
      refine congrArg (m :: ·) (filterMap_places hrest ?_).symm
      intro c hc hcm
      exact hapart _ _ c (matches_of_matchAt hm) (hfirst.trans_le hc) hcm
  rw [matchesIn_eq_matchesFrom]
  exact hwalk (Text.start t)

/-- The leftmost match is the first one. -/
theorem find?_eq_head?_matchesIn (r : Regex) (t : Text) : r.find? t = (r.matchesIn t).head? := by
  have hpick : ∀ found : List (Option Match), found.findSome? id = (pick 0 false found).head? := by
    intro found
    induction found with
    | nil => rfl
    | cons x rest ih =>
      cases x with
      | none => exact ih
      | some m => cases hm : m.length <;> simp [pick, hm]
  exact hpick _

end Regex

end CartridgeAudit.Pattern
