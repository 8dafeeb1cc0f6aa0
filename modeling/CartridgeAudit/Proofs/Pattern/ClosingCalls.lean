/-
CartridgeAudit/Proofs/Pattern/ClosingCalls.lean

Calls of `close`.

A call of `close` on one of some names is looked for by an expression with the
names in a slot.  For names of word characters it is found at a place if and
only if one of the names is *closed* there: the name with `.close()` behind it
stands there, and no word character in front of it (`closingOf_matches_iff`).

The name is the run of word characters ahead then, so no other name is closed at
the same place, even if one of the two is the beginning of the other
(`eq_of_isClosedAt`), and nothing is closed before the call ends
(`isClosedAt_eq_false_of_lt`).  Hence no call is passed over, and how often a
name is closed does not depend on the other names (`count_closedIn`).
-/
import CartridgeAudit.Proofs.Pattern.Injection
import CartridgeAudit.Proofs.Pattern.Iteration
import CartridgeAudit.Proofs.Text.Searching
import Mathlib.Algebra.BigOperators.Group.Finset.Basic
import Mathlib.Data.List.Infix

namespace CartridgeAudit.Pattern

open Cursor Regex

/-! ### Names -/

/-- A name is a run of word characters. -/
structure IsIdentifier (n : Text) : Prop where
  ne_nil : n ≠ []
  isWord : ∀ x ∈ n, Text.isWord x = true

/-- Each name once, in order. -/
theorem mem_foldl_once {n : Text} (names known : List Text) :
    n ∈ names.foldl
      (fun known name => if known.contains name then known else known ++ [name]) known ↔
        n ∈ known ∨ n ∈ names := by
  induction names generalizing known with
  | nil => simp
  | cons name names ih =>
    rw [List.foldl_cons, ih]
    split
    · next h =>
      have hmem := List.contains_iff_mem.1 h
      constructor
      · rintro (h | h)
        · exact .inl h
        · exact .inr (List.mem_cons_of_mem _ h)
      · rintro (h | h)
        · exact .inl h
        · rcases List.mem_cons.1 h with rfl | h
          · exact .inl hmem
          · exact .inr h
    · simp [or_assoc]

/-- The call that is looked for, from behind the name on. -/
def closeCall : Text := ".close()".toList

/-- Whether `close` is called at a place on a name, which is a whole word there. -/
def isClosedAt (n : Text) (p : Cursor) : Bool :=
  !headIsWord p.before && p.startsWith (n ++ closeCall)

section

variable {n n' : Text} {p q c : Cursor}

theorem isClosedAt_iff :
    isClosedAt n p = true ↔ headIsWord p.before = false ∧ n ++ closeCall <+: p.after := by
  simp [isClosedAt, Cursor.startsWith, List.isPrefixOf_iff_prefix]

theorem exists_leads_of_isClosedAt (h : isClosedAt n p = true) :
    ∃ q, p.Leads (n ++ closeCall) q := by
  obtain ⟨rest, hrest⟩ := (isClosedAt_iff.1 h).2
  exact ⟨⟨(n ++ closeCall).reverse ++ p.before, rest⟩, hrest.symm, rfl⟩

theorem headIsWord_append {s : Text} (hs : s ≠ []) (t : Text) :
    headIsWord (s ++ t) = headIsWord s := by
  obtain ⟨x, s, rfl⟩ := List.exists_cons_of_ne_nil hs
  rfl

theorem IsIdentifier.headIsWord_eq (h : IsIdentifier n) : headIsWord n = true := by
  obtain ⟨x, n, rfl⟩ := List.exists_cons_of_ne_nil h.ne_nil
  exact h.isWord x List.mem_cons_self

theorem IsIdentifier.reverse (h : IsIdentifier n) : IsIdentifier n.reverse :=
  ⟨mt List.reverse_eq_nil_iff.1 h.ne_nil, fun x hx => h.isWord x (List.mem_reverse.1 hx)⟩

theorem IsIdentifier.of_append (h : IsIdentifier (n ++ n')) (hne : n ≠ []) : IsIdentifier n :=
  ⟨hne, fun x hx => h.isWord x (List.mem_append_left n' hx)⟩

/-- A name ends at the first character that is not a word character. -/
theorem IsIdentifier.takeWhile_eq (h : IsIdentifier n) {x : Char} (hx : Text.isWord x = false)
    (rest : Text) : (n ++ x :: rest).takeWhile Text.isWord = n :=
  Text.takeWhile_append_cons h.isWord hx rest

/-- What a run of word characters matches is a name. -/
theorem matches_word_iff : (run1 .word).Matches p q ↔ ∃ n, IsIdentifier n ∧ p.Leads n q := by
  simp only [matches_run1, contains_word_iff]
  constructor
  · rintro ⟨n, hne, hword, hleads⟩
    exact ⟨n, ⟨hne, hword⟩, hleads⟩
  · rintro ⟨n, hn, hleads⟩
    exact ⟨n, hn.ne_nil, hn.isWord, hleads⟩

/-- A whole word that begins an expression is captured. -/
theorem capturesFirst_word : (boundary ++ capture 1 (run1 .word)).CapturesFirst 1
    fun p b _ => ∃ n, IsIdentifier n ∧ p.Leads n b := by
  refine ((capturesFirst_capture rfl).behind .wordBoundary).imp ?_
  rintro p b q ⟨-, hword, -⟩
  exact matches_word_iff.1 hword

/-- Behind a name that is closed stands `.close()`. -/
theorem IsIdentifier.of_isClosedAt (h : IsIdentifier n) (hclosed : isClosedAt n p = true) :
    n = p.after.takeWhile Text.isWord ∧
      closeCall <+: p.after.drop (p.after.takeWhile Text.isWord).length := by
  obtain ⟨rest, hrest⟩ := (isClosedAt_iff.1 hclosed).2
  have hahead : p.after = n ++ '.' :: ("close()".toList ++ rest) := by
    rw [← hrest, List.append_assoc]
    rfl
  have hname : p.after.takeWhile Text.isWord = n := by
    rw [hahead]
    exact h.takeWhile_eq (by decide) _
  rw [hname]
  refine ⟨rfl, rest, ?_⟩
  rw [hahead, List.drop_left]
  rfl

/-- At a place at most one name is closed. -/
theorem eq_of_isClosedAt (h : IsIdentifier n) (h' : IsIdentifier n')
    (hclosed : isClosedAt n p = true) (hclosed' : isClosedAt n' p = true) : n = n' :=
  (h.of_isClosedAt hclosed).1.trans (h'.of_isClosedAt hclosed').1.symm

/-- Cut in two, the call ends in a word character, or goes on as no call does. -/
theorem closeCall_cases {s r : Text} (h : s ++ r = closeCall) (hs : s ≠ []) (hr : r ≠ []) :
    headIsWord s.reverse = true ∨ r = "close()".toList ∨ r = ")".toList := by
  have hall : ∀ s ∈ closeCall.inits, s = [] ∨ s = closeCall ∨ headIsWord s.reverse = true ∨
      s = ".".toList ∨ s = ".close(".toList := by decide
  rcases hall s ((List.mem_inits _ _).2 ⟨r, h⟩) with rfl | rfl | hword | rfl | rfl
  · exact absurd rfl hs
  · exact absurd (List.append_right_eq_self.1 h) hr
  · exact .inl hword
  · have hrest : ".".toList ++ r = ".".toList ++ "close()".toList := h
    exact .inr (.inl (List.append_cancel_left hrest))
  · have hrest : ".close(".toList ++ r = ".close(".toList ++ ")".toList := h
    exact .inr (.inr (List.append_cancel_left hrest))

/-- Within a call of `close`, nothing else is closed. -/
theorem isClosedAt_eq_false_of_lt (h : IsIdentifier n) (hcall : p.Leads (n ++ closeCall) q)
    (hpc : p < c) (hcq : c < q) (h' : IsIdentifier n') : isClosedAt n' c = false := by
  rw [Bool.eq_false_iff]
  intro hclosed
  obtain ⟨hedge, -⟩ := isClosedAt_iff.1 hclosed
  obtain ⟨hname, hcallAhead⟩ := h'.of_isClosedAt hclosed
  obtain ⟨s, r, hcut, hs, hr⟩ := hcall.split_of_le hpc.le hcq.le
  have hsne := hs.lt_iff.1 hpc
  have hrne := hr.lt_iff.1 hcq
  -- behind a word character no name begins
  have hbehind : headIsWord s.reverse = false := by
    rwa [hs.behind, headIsWord_append (mt List.reverse_eq_nil_iff.1 hsne)] at hedge
  rcases List.append_eq_append_iff.1 hcut with ⟨s', rfl, hs'⟩ | ⟨more, rfl, -⟩
  · by_cases hs'ne : s' = []
    · rw [hs'ne, List.append_nil, h.reverse.headIsWord_eq] at hbehind
      cases hbehind
    · rcases closeCall_cases hs'.symm hs'ne hrne with hword | rfl | rfl
      · rw [List.reverse_append, headIsWord_append (mt List.reverse_eq_nil_iff.1 hs'ne), hword]
          at hbehind
        cases hbehind
      · -- the name would be `close`, and a bracket follows
        have hclose : IsIdentifier "close".toList := ⟨by decide, List.all_eq_true.1 (by decide)⟩
        have hrun : c.after.takeWhile Text.isWord = "close".toList := by
          rw [hr.ahead]
          exact hclose.takeWhile_eq (by decide) _
        rw [hrun, hr.ahead] at hcallAhead
        exact absurd (List.cons_prefix_cons.1 hcallAhead).1 (by decide)
      · refine h'.ne_nil (hname.trans ?_)
        rw [hr.ahead]
        exact List.takeWhile_cons_of_neg (by decide)
  · rw [(h.of_append hsne).reverse.headIsWord_eq] at hbehind
    cases hbehind

end

/-! ### The expression -/

/-- What fills a slot matches one of the names. -/
theorem matches_slot {names : List Text} {p q : Cursor} :
    (slot names).Matches p q ↔ ∃ n ∈ names, p.Leads n q := by
  cases names with
  | nil =>
    rw [slot, if_pos (by rfl), matches_single]
    constructor
    · rintro ⟨x, -, hx⟩
      cases hb : Text.isBlank x <;> simp [CharClass.contains, ClassItem.covers, hb] at hx
    · rintro ⟨n, hn, -⟩
      cases hn
  | cons first names =>
    show (Regex.choice ((first :: names).map literal)).Matches p q ↔ _
    simp only [matches_choice, List.mem_map, exists_exists_and_eq_and, matches_literal]

theorem binds_choice {i : Nat} {rs : List Regex} (h : ∀ r ∈ rs, r.binds i = false) :
    (choice rs).binds i = false := by
  induction rs with
  | nil => rfl
  | cons r rs ih =>
    obtain ⟨hr, hrs⟩ := List.forall_mem_cons.1 h
    cases rs with
    | nil => exact hr
    | cons s rs => exact Bool.or_eq_false_iff.2 ⟨hr, ih hrs⟩

theorem binds_sequence {i : Nat} {rs : List Regex} (h : ∀ r ∈ rs, r.binds i = false) :
    (sequence rs).binds i = false := by
  induction rs with
  | nil => rfl
  | cons r rs ih =>
    obtain ⟨hr, hrs⟩ := List.forall_mem_cons.1 h
    cases rs with
    | nil => exact hr
    | cons s rs => exact Bool.or_eq_false_iff.2 ⟨hr, ih hrs⟩

theorem binds_literal (i : Nat) (t : Text) : (literal t).binds i = false := by
  apply binds_sequence
  rintro r hr
  obtain ⟨x, -, rfl⟩ := List.mem_map.1 hr
  rfl

/-- What fills a slot captures nothing. -/
theorem binds_slot (i : Nat) (names : List Text) : (slot names).binds i = false := by
  unfold slot
  split
  · rfl
  · apply binds_choice
    rintro r hr
    obtain ⟨n, -, rfl⟩ := List.mem_map.1 hr
    exact binds_literal i n

/-- The expression for a call of `close` on one of some names. -/
def closingOf (names : List Text) : Regex :=
  .seq boundary (.seq (.capture 1 (slot names)) (literal closeCall))

theorem build_closedVariable (names : List Text) :
    Template.closedVariable.build [(Template.vars, names)] = .ok (closingOf names) :=
  Template.build_eq_ok (Template.closedVariable_build? names)

theorem isProper_closingOf (names : List Text) : (closingOf names).isProper = true := by
  have hcall : (literal closeCall).isProper = true := by decide
  show (false || ((slot names).isProper || (literal closeCall).isProper)) = true
  rw [hcall, Bool.or_true]
  rfl

theorem capturesFirst_closingOf (names : List Text) :
    (closingOf names).CapturesFirst 1 fun p b q => Anchor.wordBoundary.holds p = true ∧
      (slot names).Matches p b ∧ (literal closeCall).Matches b q := by
  have hname := (capturesFirst_capture (binds_slot 1 names)).seq (binds_literal 1 closeCall)
  refine (hname.behind .wordBoundary).imp ?_
  rintro p b q ⟨hholds, _, ⟨hslot, rfl⟩, hcall⟩
  exact ⟨hholds, hslot, hcall⟩

/-- Before a name, a word boundary means that no word character is behind. -/
theorem IsIdentifier.boundary_holds_iff {n : Text} (h : IsIdentifier n) {p q : Cursor}
    (hn : p.Leads n q) : Anchor.wordBoundary.holds p = true ↔ headIsWord p.before = false := by
  have hahead : headIsWord p.after = true := by
    rw [hn.ahead, headIsWord_append h.ne_nil, h.headIsWord_eq]
  show (headIsWord p.before != headIsWord p.after) = true ↔ _
  rw [hahead]
  cases headIsWord p.before <;> decide

section

variable {names : List Text} (hnames : ∀ n ∈ names, IsIdentifier n)
variable {n : Text} {p q : Cursor} {m : Match}

include hnames

/-- The expression matches where one of the names is closed. -/
theorem closingOf_matches_iff :
    (closingOf names).Matches p q ↔
      ∃ n ∈ names, isClosedAt n p = true ∧ p.Leads (n ++ closeCall) q := by
  simp only [closingOf, boundary, matches_seq, matches_assert, matches_capture, matches_slot,
    matches_literal]
  constructor
  · rintro ⟨_, ⟨hholds, rfl⟩, b, ⟨n, hn, hname⟩, hcall⟩
    have hedge := ((hnames n hn).boundary_holds_iff hname).1 hholds
    have hleads := hname.trans hcall
    exact ⟨n, hn, isClosedAt_iff.2 ⟨hedge, q.after, hleads.ahead.symm⟩, hleads⟩
  · rintro ⟨n, hn, hclosed, hleads⟩
    obtain ⟨b, hname, hcall⟩ := hleads.exists_between
    have hholds := ((hnames n hn).boundary_holds_iff hname).2 (isClosedAt_iff.1 hclosed).1
    exact ⟨p, ⟨hholds, rfl⟩, b, ⟨n, hn, hname⟩, hcall⟩

/-- A match captures the name that is closed. -/
theorem of_matchAt_closingOf (h : (closingOf names).matchAt p = some m) :
    m.groupText 1 ∈ names ∧ isClosedAt (m.groupText 1) p = true := by
  obtain ⟨b, hgroup, hholds, hslot, hcall⟩ := (capturesFirst_closingOf names).of_matchAt h
  obtain ⟨n, hn, hname⟩ := matches_slot.1 hslot
  have htext := groupText_eq hgroup hname
  have hedge := ((hnames n hn).boundary_holds_iff hname).1 hholds
  have hleads := hname.trans (matches_literal.1 hcall)
  rw [htext]
  exact ⟨hn, isClosedAt_iff.2 ⟨hedge, _, hleads.ahead.symm⟩⟩

/-- Whether the name of the match at a place is a given one. -/
theorem matchAt_closingOf_any (hn : n ∈ names) :
    ((closingOf names).matchAt p).any (·.groupText 1 == n) = isClosedAt n p := by
  rw [Bool.eq_iff_iff, Option.any_eq_true]
  constructor
  · rintro ⟨m, hm, hname⟩
    obtain rfl := beq_iff_eq.1 hname
    exact (of_matchAt_closingOf hnames hm).2
  · intro hclosed
    obtain ⟨q, hleads⟩ := exists_leads_of_isClosedAt hclosed
    obtain ⟨m, hm⟩ := exists_matchAt ((closingOf_matches_iff hnames).2 ⟨n, hn, hclosed, hleads⟩)
    obtain ⟨hmem, hclosed'⟩ := of_matchAt_closingOf hnames hm
    exact ⟨m, hm, beq_iff_eq.2 (eq_of_isClosedAt (hnames _ hmem) (hnames n hn) hclosed' hclosed)⟩

/-- No call of `close` is passed over. -/
theorem matchesIn_closingOf (t : Text) :
    (closingOf names).matchesIn t = (places [] t).filterMap (closingOf names).matchAt := by
  refine matchesIn_eq_filterMap (isProper_closingOf names) ?_ t
  intro p q c hpq hpc hcq
  obtain ⟨n, hn, -, hleads⟩ := (closingOf_matches_iff hnames).1 hpq
  rw [matchAt_eq_none_iff]
  intro d hcd
  obtain ⟨n', hn', hclosed, -⟩ := (closingOf_matches_iff hnames).1 hcd
  rw [isClosedAt_eq_false_of_lt (hnames n hn) hleads hpc hcq (hnames n' hn')] at hclosed
  cases hclosed

end

/-- A name is closed somewhere in a text. -/
def IsClosedIn (scope n : Text) : Prop := ∃ p : Cursor, p.text = scope ∧ isClosedAt n p = true

theorem closingOf_isMatch_iff {n scope : Text} (hn : IsIdentifier n) :
    (closingOf [n]).isMatch scope = true ↔ IsClosedIn scope n := by
  have hnames := List.forall_mem_singleton.2 hn
  rw [isMatch_iff]
  constructor
  · rintro ⟨p, q, htext, hmatches⟩
    obtain ⟨_, hmem, hclosed, -⟩ := (closingOf_matches_iff hnames).1 hmatches
    obtain rfl := List.mem_singleton.1 hmem
    exact ⟨p, htext, hclosed⟩
  · rintro ⟨p, htext, hclosed⟩
    obtain ⟨q, hleads⟩ := exists_leads_of_isClosedAt hclosed
    exact ⟨p, q, htext, (closingOf_matches_iff hnames).2
      ⟨n, List.mem_singleton_self n, hclosed, hleads⟩⟩

/-! ### How often names are closed -/

/-- How often a name is closed in a text. -/
def closings (t n : Text) : Nat := (places [] t).countP (isClosedAt n)

/-- The names on which `close` is called, in order. -/
def closedIn (names : List Text) (t : Text) : List Text :=
  ((closingOf names).matchesIn t).map (·.groupText 1)

section

variable {names : List Text} (hnames : ∀ n ∈ names, IsIdentifier n) (t : Text)

include hnames

theorem mem_of_mem_closedIn {n : Text} (h : n ∈ closedIn names t) : n ∈ names := by
  rw [closedIn, matchesIn_closingOf hnames] at h
  obtain ⟨m, hm, rfl⟩ := List.mem_map.1 h
  obtain ⟨p, -, hp⟩ := List.mem_filterMap.1 hm
  exact (of_matchAt_closingOf hnames hp).1

/-- **Every name is counted by itself.** -/
theorem count_closedIn {n : Text} (hn : n ∈ names) : (closedIn names t).count n = closings t n := by
  rw [closedIn, matchesIn_closingOf hnames, List.count, List.countP_map, List.countP_filterMap]
  refine List.countP_congr fun p _ => ?_
  rw [← matchAt_closingOf_any hnames hn]
  cases (closingOf names).matchAt p <;> rfl

/-- There are as many calls of `close` as there are of all names together. -/
theorem length_closedIn : (closedIn names t).length = ∑ n ∈ names.toFinset, closings t n := by
  have hsub : (closedIn names t).toFinset ⊆ names.toFinset := by
    intro n hn
    exact List.mem_toFinset.2 (mem_of_mem_closedIn hnames t (List.mem_toFinset.1 hn))
  have hbeq : (instBEqOfDecidableEq : BEq Text) = List.instBEq := lawful_beq_subsingleton _ _
  rw [← List.sum_toFinset_count_eq_length, hbeq, Finset.sum_subset hsub]
  · refine Finset.sum_congr rfl fun n hn => ?_
    exact count_closedIn hnames t (List.mem_toFinset.1 hn)
  · intro n _ hn
    exact List.count_eq_zero.2 fun hmem => hn (List.mem_toFinset.2 hmem)

end

end CartridgeAudit.Pattern
