/-
CartridgeAudit/Proofs/Rule/ReadersClosed.lean

Readers and writers that are not closed.

The rule goes through the bindings with the names on which `close` is called as
a budget: a binding whose name is still in it takes the name out, any other one
is left (`unclosed`).  What is left can be said without the budget.  A binding
is left if as many bindings of its name as there are calls of `close` on that
name come before it (`leftAfter`); the budget after some bindings holds every
name as often as its calls exceed those bindings (`unclosed_eq_filter`).

Calls are counted name by name (`count_closedIn`), so what a file is reported
for depends on its bindings and on the counts of their names only.

Main result: `closeReadersWriters_reports`.
-/
import CartridgeAudit.Proofs.Pattern.ClosingCalls
import CartridgeAudit.Proofs.Report.Rows
import CartridgeAudit.Rule.Closing

namespace CartridgeAudit.Rule

open Pattern Regex Cursor

/-! ### Bindings -/

/-- The bindings of readers and writers: what is matched, by its name. -/
def bindings (t : Text) : List Binding :=
  (Catalog.readerWriterBinding.matchesIn t).map fun m => ⟨m.groupText 1, m.start.offset⟩

/-- The bound names, in order. -/
def namesOf (bs : List Binding) : List Text := bs.map (·.name)

/-- A binding begins with its name. -/
theorem capturesFirst_readerWriterBinding :
    Catalog.readerWriterBinding.CapturesFirst 1 fun p b _ => ∃ n, IsIdentifier n ∧ p.Leads n b :=
  capturesFirst_word.extend rfl |>.extend rfl |>.extend rfl |>.extend rfl |>.extend rfl
    |>.extend rfl |>.extend rfl |>.extend rfl |>.extend rfl

theorem openedBindings_eq (t : Text) : openedBindings t = bindings t := by
  rw [openedBindings, bindings, ← List.filterMap_eq_map]
  refine List.filterMap_congr fun m hm => ?_
  obtain ⟨b, hgroup, -⟩ := capturesFirst_readerWriterBinding.of_mem_matchesIn hm
  simp only [Match.groupText, hgroup, Option.map_some, Function.comp_apply]

theorem isIdentifier_of_mem_bindings {t : Text} : ∀ n ∈ namesOf (bindings t), IsIdentifier n := by
  intro n hn
  obtain ⟨b, hb, rfl⟩ := List.mem_map.1 hn
  obtain ⟨m, hm, rfl⟩ := List.mem_map.1 hb
  obtain ⟨stop, hgroup, n, hname, hleads⟩ := capturesFirst_readerWriterBinding.of_mem_matchesIn hm
  rwa [groupText_eq hgroup hleads]

/-! ### What is left of the bindings -/

/-- Whether at least `c n` bindings of the same name `n` come before a binding,
given with its number among them all. -/
def isLeft (c : Text → Nat) (bs : List Binding) (x : Binding × Nat) : Bool :=
  c x.1.name ≤ (namesOf (bs.take x.2)).count x.1.name

/-- The bindings that are left when, of every name `n`, the first `c n` bindings
are taken away. -/
def leftAfter (c : Text → Nat) (bs : List Binding) : List Binding :=
  (bs.zipIdx.filter (isLeft c bs)).map (·.1)

section

variable {c c' : Text → Nat} {bs : List Binding}

theorem leftAfter_congr (h : ∀ n ∈ namesOf bs, c n = c' n) : leftAfter c bs = leftAfter c' bs := by
  unfold leftAfter
  refine congrArg _ (List.filter_congr fun x hx => ?_)
  rw [isLeft, isLeft, h _ (List.mem_map_of_mem (List.fst_mem_of_mem_zipIdx hx))]

/-- What is left is left in order. -/
theorem leftAfter_sublist (c : Text → Nat) (bs : List Binding) : (leftAfter c bs).Sublist bs := by
  have hsub := (List.filter_sublist (l := bs.zipIdx) (p := isLeft c bs)).map Prod.fst
  rwa [List.zipIdx_map_fst] at hsub

end

section

variable {c : Text → Nat} {closed : List Text} {b : Binding}

theorem count_namesOf_cons (b : Binding) (bs : List Binding) (n : Text) :
    (namesOf (b :: bs)).count n = (namesOf bs).count n + if b.name = n then 1 else 0 := by
  simp [namesOf, List.count_cons]

theorem count_namesOf_concat (bs : List Binding) (b : Binding) (n : Text) :
    (namesOf (bs ++ [b])).count n = (namesOf bs).count n + if b.name = n then 1 else 0 := by
  simp [namesOf, List.count_singleton]

/-- A binding whose name is in the budget takes it out once. -/
theorem count_erase_name (closed : List Text) (x n : Text) :
    (closed.erase x).count n = closed.count n - if x = n then 1 else 0 := by
  simp only [List.count_erase, beq_iff_eq]

theorem contains_iff_count_pos : closed.contains b.name = true ↔ 0 < closed.count b.name := by
  rw [List.contains_iff_mem, List.count_pos_iff]

/-- Behind some bindings, the budget holds a name as often as there are more
calls of `close` on it than bindings so far. -/
theorem unclosed_eq_filter {before bs : List Binding}
    (hbudget : ∀ n, closed.count n = c n - (namesOf before).count n) :
    unclosed closed bs =
      ((bs.zipIdx before.length).filter (isLeft c (before ++ bs))).map (·.1) := by
  induction bs generalizing before closed with
  | nil => rfl
  | cons b bs ih =>
    have hb := hbudget b.name
    have hsame : before ++ b :: bs = (before ++ [b]) ++ bs := by simp
    have hfirst : isLeft c (before ++ b :: bs) (b, before.length) =
        decide (c b.name ≤ (namesOf before).count b.name) := by
      rw [isLeft, List.take_left]
    -- whichever way the binding goes, the budget behind it is as it should be
    have hrest : ∀ closed' : List Text,
        (∀ n, closed'.count n = c n - ((namesOf before).count n + if b.name = n then 1 else 0)) →
        unclosed closed' bs = ((bs.zipIdx (before.length + 1)).filter
          (isLeft c (before ++ b :: bs))).map (·.1) := by
      intro closed' hclosed'
      rw [hsame, ← List.length_singleton (a := b), ← List.length_append]
      exact ih fun n => by rw [hclosed', count_namesOf_concat]
    rw [unclosed, List.zipIdx_cons, List.filter_cons, hfirst]
    by_cases hleft : c b.name ≤ (namesOf before).count b.name
    · have hno : ¬ closed.contains b.name = true := by
        rw [contains_iff_count_pos]
        omega
      rw [if_neg hno, if_pos (decide_eq_true hleft), List.map_cons, hrest closed]
      intro n
      rw [hbudget]
      split
      · next hname => subst hname; omega
      · rfl
    · have hyes : closed.contains b.name = true := by
        rw [contains_iff_count_pos]
        omega
      rw [if_pos hyes, if_neg (by simpa using hleft), hrest]
      intro n
      rw [count_erase_name, hbudget, Nat.sub_sub]

/-- **What is left, without the budget.** -/
theorem unclosed_eq_leftAfter (closed : List Text) (bs : List Binding) :
    unclosed closed bs = leftAfter (closed.count ·) bs := by
  have hnone : ∀ n, closed.count n = closed.count n - (namesOf []).count n := fun _ => rfl
  exact unclosed_eq_filter hnone

/-- Of every name, as many bindings are left as there are more than calls. -/
theorem count_unclosed (closed : List Text) (bs : List Binding) (n : Text) :
    (namesOf (unclosed closed bs)).count n = (namesOf bs).count n - closed.count n := by
  induction bs generalizing closed with
  | nil => simp [unclosed, namesOf]
  | cons b bs ih =>
    have hpos : closed.contains b.name = true ↔ _ := contains_iff_count_pos
    rw [unclosed, count_namesOf_cons]
    split
    · next hyes =>
      have hb := hpos.1 hyes
      rw [ih, count_erase_name]
      split
      · next hname => subst hname; omega
      · omega
    · next hno =>
      have hb := mt hpos.2 hno
      rw [count_namesOf_cons, ih]
      split
      · next hname => subst hname; omega
      · omega

theorem length_le_unclosed (closed : List Text) (bs : List Binding) :
    bs.length ≤ closed.length + (unclosed closed bs).length := by
  induction bs generalizing closed with
  | nil => exact Nat.zero_le _
  | cons b bs ih =>
    rw [unclosed, List.length_cons]
    split
    · next hyes =>
      have hmem := List.contains_iff_mem.1 hyes
      have hpos := List.length_pos_of_mem hmem
      have hle := ih (closed.erase b.name)
      rw [List.length_erase_of_mem hmem] at hle
      omega
    · have hle := ih closed
      rw [List.length_cons]
      omega

end

/-! ### What is reported -/

/-- The number of calls of `close` on the bound names, each name taken once. -/
def closedTotal (t : Text) : Nat := ∑ n ∈ (namesOf (bindings t)).toFinset, closings t n

/-- The bindings that are left after the calls of `close` on their names. -/
def leftOpen (t : Text) : List Binding := leftAfter (closings t) (bindings t)

/-- The violation of a file: both numbers and the names that are left, at the
first binding that is left, or else at the first one. -/
def closingReport (t : Text) : Violation where
  text := (s!"{(bindings t).length} opened, {closedTotal t} closed, not closed: ").toList ++
    Text.join ", ".toList (namesOf (leftOpen t))
  offset := ((leftOpen t ++ bindings t).map (·.offset)).headD 0
  row := none
  text_ne_nil := by simp [String.toList_append]

theorem closedNames_eq (t : Text) :
    closedNames (namesOf (bindings t)) t = .ok (closedIn (namesOf (bindings t)) t) := by
  rw [closedNames, build_closedVariable]
  rfl

theorem unclosed_closedIn (t : Text) :
    unclosed (closedIn (namesOf (bindings t)) t) (bindings t) = leftOpen t := by
  rw [unclosed_eq_leftAfter]
  exact leftAfter_congr fun n hn => count_closedIn isIdentifier_of_mem_bindings t hn

theorem length_closedIn_bindings (t : Text) :
    (closedIn (namesOf (bindings t)) t).length = closedTotal t :=
  length_closedIn isIdentifier_of_mem_bindings t

theorem closingViolation_eq {t : Text} {first : Binding} {rest : List Binding}
    (h : bindings t = first :: rest) :
    closingViolation first (bindings t) (closedIn (namesOf (bindings t)) t) =
      .ok (closingReport t) := by
  have hoffset : ((leftOpen t).headD first).offset = (closingReport t).offset := by
    show _ = ((leftOpen t ++ bindings t).map (·.offset)).headD 0
    rw [h]
    cases leftOpen t <;> rfl
  rw [closingViolation, unclosed_closedIn, length_closedIn_bindings, hoffset]
  exact Violation.new_eq_ok_iff.2 ⟨rfl, rfl, rfl⟩

theorem unclosedBindings_eq (t : Text) :
    unclosedBindings t = .ok (if bindings t = [] ∨ closedTotal t = (bindings t).length then []
      else [closingReport t]) := by
  cases hbindings : bindings t with
  | nil =>
    rw [unclosedBindings, openedBindings_eq, hbindings, if_pos (.inl rfl)]
  | cons first rest =>
    have hsteps : unclosedBindings t = (closedNames (namesOf (bindings t)) t >>= fun closed =>
        if closed.length = (bindings t).length then return []
        else return [← closingViolation first (bindings t) closed]) := by
      rw [unclosedBindings, openedBindings_eq, hbindings]
      rfl
    rw [hsteps, closedNames_eq, ← hbindings]
    show (if (closedIn (namesOf (bindings t)) t).length = (bindings t).length then _ else _) = _
    rw [closingViolation_eq hbindings, length_closedIn_bindings]
    by_cases hsame : closedTotal t = (bindings t).length
    · rw [if_pos hsame, if_pos (.inr hsame)]
      rfl
    · have hne : bindings t ≠ [] := by simp [hbindings]
      rw [if_neg hsame, if_neg (not_or.2 ⟨hne, hsame⟩)]
      rfl

theorem count_leftOpen (t n : Text) :
    (namesOf (leftOpen t)).count n = (namesOf (bindings t)).count n - closings t n := by
  have hcount := count_unclosed (closedIn (namesOf (bindings t)) t) (bindings t) n
  rw [unclosed_closedIn] at hcount
  by_cases hn : n ∈ namesOf (bindings t)
  · rw [hcount, count_closedIn isIdentifier_of_mem_bindings t hn]
  · -- a name that is not bound is not left either
    rw [hcount, List.count_eq_zero.2 hn, Nat.zero_sub, Nat.zero_sub]

theorem leftOpen_ne_nil {t : Text} (h : closedTotal t < (bindings t).length) : leftOpen t ≠ [] := by
  have hle := length_le_unclosed (closedIn (namesOf (bindings t)) t) (bindings t)
  rw [unclosed_closedIn, length_closedIn_bindings] at hle
  intro hnil
  rw [hnil] at hle
  exact absurd h (Nat.not_lt.2 hle)

/-- **Readers and writers.** A file is reported for its readers and writers
unless it has none, or as many calls of `close` on the bound names as bindings.
Then there is one violation, which lists in their order the bindings that are
left when every name loses as many of its first bindings as there are calls of
`close` on it. -/
theorem closeReadersWriters_reports (v : FileView) (notices : List Notice) :
    ((closeReadersWriters.check v notices).1 = .ok [] ↔
      bindings v.content = [] ∨ closedTotal v.content = (bindings v.content).length) ∧
    (¬ (bindings v.content = [] ∨ closedTotal v.content = (bindings v.content).length) →
      (closeReadersWriters.check v notices).1 = .ok [closingReport v.content]) ∧
    (leftOpen v.content).Sublist (bindings v.content) ∧
    (∀ n, (namesOf (leftOpen v.content)).count n =
      (namesOf (bindings v.content)).count n - closings v.content n) ∧
    (closedTotal v.content < (bindings v.content).length → leftOpen v.content ≠ []) := by
  have hcheck : (closeReadersWriters.check v notices).1 = unclosedBindings v.content := rfl
  rw [hcheck, unclosedBindings_eq]
  refine ⟨?_, fun h => by rw [if_neg h], leftAfter_sublist _ _, count_leftOpen _, leftOpen_ne_nil⟩
  split <;> simp [*]

/-- One of two names is the beginning of the other: the call of `close` on the
longer one is not counted for the shorter one. -/
example : closingReport
    "var r = new Reader(s);\nvar rr = new Writer(s);\nrr.close();".toList =
      ⟨"2 opened, 1 closed, not closed: r".toList, 4, none, by decide⟩ := by decide +kernel

end CartridgeAudit.Rule
