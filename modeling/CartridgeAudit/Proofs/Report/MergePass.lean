/-
CartridgeAudit/Proofs/Report/MergePass.lean

The merge pass gives every violation the row of its offset.

The pass keeps a count of the newlines that it has passed, and all visits share
it.  What carries it is that every newline that has been passed stands before each
offset still to come: so a visit never has to go back, and its count is the one that
a look-up among all newlines gives (`rowOf_append`).  The offsets come in ascending
order because the visits are sorted by them (`pairwise_offsetOrder`).

Nothing else is needed of the order.  A visit writes to its own place only and
leaves all offsets as they are, so it does not matter where a violation stands in
the order, nor how often; only that it occurs there (`mem_offsetOrder`).
-/
import CartridgeAudit.Report.Violation
import Mathlib.Data.List.TakeWhile

namespace CartridgeAudit

/-! ### The newlines that are passed -/

theorem passTo_eq (offset passed : Nat) (ahead : List Nat) :
    passTo offset passed ahead =
      (passed + (ahead.takeWhile (· < offset)).length, ahead.dropWhile (· < offset)) := by
  induction ahead generalizing passed with
  | nil => rfl
  | cons n ahead ih =>
    rw [passTo]
    by_cases h : n < offset
    · rw [if_pos h, ih, List.takeWhile_cons_of_pos (by simpa),
        List.dropWhile_cons_of_pos (by simpa), List.length_cons, Nat.add_assoc, Nat.add_comm 1]
    · rw [if_neg h, List.takeWhile_cons_of_neg (by simpa using h),
        List.dropWhile_cons_of_neg (by simpa using h)]
      rfl

/-- Newlines that all stand before an offset need not be looked at again. -/
theorem rowOf_append {passed : List Nat} {offset : Nat} (h : ∀ n ∈ passed, n < offset)
    (ahead : List Nat) :
    rowOf (passed ++ ahead) offset =
      passed.length + (ahead.takeWhile (· < offset)).length + 1 := by
  rw [rowOf, List.takeWhile_append_of_pos (by simpa using h), List.length_append]

/-! ### One visit -/

namespace Violation

@[simp] theorem offset_withRow (v : Violation) (row : Nat) :
    (v.withRow row).offset = v.offset := rfl

@[simp] theorem withRow_withRow (v : Violation) (row row' : Nat) :
    (v.withRow row).withRow row' = v.withRow row' := rfl

end Violation

section Visits

variable {k : Nat} {vs : Vector Violation k}

theorem get_set (i j : Fin k) (v : Violation) :
    (vs.set i v i.isLt).get j = if j = i then v else vs.get j := by
  show (vs.set i v i.isLt)[j.val] = if j = i then v else vs[j.val]
  rw [Vector.getElem_set]
  simp only [Fin.val_inj, eq_comm]

/-- A visit leaves all offsets. -/
theorem offset_set_withRow (i j : Fin k) (row : Nat) :
    ((vs.set i ((vs.get i).withRow row) i.isLt).get j).offset = (vs.get j).offset := by
  rw [get_set]
  split
  · next h => rw [Violation.offset_withRow, h]
  · rfl

/-- What a visit has written does not matter where a row is written later. -/
theorem withRow_set_withRow (i j : Fin k) (row row' : Nat) :
    ((vs.set i ((vs.get i).withRow row) i.isLt).get j).withRow row' = (vs.get j).withRow row' := by
  rw [get_set]
  split
  · next h => rw [Violation.withRow_withRow, h]
  · rfl

/-- The step of the pass: the row is the one among all newlines. -/
theorem mergeRows_cons {i : Fin k} (order : List (Fin k)) {passed : List Nat}
    (h : ∀ n ∈ passed, n < (vs.get i).offset) (ahead : List Nat) :
    mergeRows (i :: order) passed.length ahead vs =
      mergeRows order (passed ++ ahead.takeWhile (· < (vs.get i).offset)).length
        (ahead.dropWhile (· < (vs.get i).offset))
        (vs.set i ((vs.get i).withRow (rowOf (passed ++ ahead) (vs.get i).offset)) i.isLt) := by
  rw [rowOf_append h, List.length_append, mergeRows, passTo_eq]

/-! ### All visits -/

/-- A place that is still to be visited, or has its row already, has it in the end, if
each offset to come stands behind the newlines that have been passed and the offsets
ascend. -/
theorem get_mergeRows {order : List (Fin k)} {passed ahead : List Nat}
    (hpassed : ∀ i ∈ order, ∀ n ∈ passed, n < (vs.get i).offset)
    (hsorted : order.Pairwise fun i j => (vs.get i).offset ≤ (vs.get j).offset) {j : Fin k}
    (hj : j ∈ order ∨
      vs.get j = (vs.get j).withRow (rowOf (passed ++ ahead) (vs.get j).offset)) :
    (mergeRows order passed.length ahead vs).get j =
      (vs.get j).withRow (rowOf (passed ++ ahead) (vs.get j).offset) := by
  induction order generalizing passed ahead vs with
  | nil => exact hj.resolve_left List.not_mem_nil
  | cons i order ih =>
    obtain ⟨hpassedi, hpassed⟩ := List.forall_mem_cons.1 hpassed
    obtain ⟨hi, hsorted⟩ := List.pairwise_cons.1 hsorted
    -- what this visit passes stands before its offset, and the offsets to come are no smaller
    have hpassed' : ∀ j ∈ order, ∀ n ∈ passed ++ ahead.takeWhile (· < (vs.get i).offset),
        n < (vs.get j).offset := by
      intro j hj n hn
      rcases List.mem_append.1 hn with hn | hn
      · exact hpassed j hj n hn
      · exact Nat.lt_of_lt_of_le (by simpa using List.mem_takeWhile_imp hn) (hi j hj)
    have hsplit : passed ++ ahead.takeWhile (· < (vs.get i).offset) ++
        ahead.dropWhile (· < (vs.get i).offset) = passed ++ ahead := by
      rw [List.append_assoc, List.takeWhile_append_dropWhile]
    rw [mergeRows_cons order hpassedi, ih (by simpa only [offset_set_withRow] using hpassed')
      (by simpa only [offset_set_withRow] using hsorted), offset_set_withRow, withRow_set_withRow,
      hsplit]
    rw [offset_set_withRow, withRow_set_withRow, hsplit, get_set]
    rcases hj with hj | hj
    · rcases List.mem_cons.1 hj with rfl | hj
      · exact .inr (if_pos rfl)
      · exact .inl hj
    · right
      split
      · next h => rw [h]
      · exact hj

/-! ### The order of the visits -/

theorem pairwise_offsetOrder (vs : Vector Violation k) :
    (offsetOrder vs).Pairwise fun i j => (vs.get i).offset ≤ (vs.get j).offset := by
  have htrans : ∀ i j l : Fin k, decide ((vs.get i).offset ≤ (vs.get j).offset) = true →
      decide ((vs.get j).offset ≤ (vs.get l).offset) = true →
      decide ((vs.get i).offset ≤ (vs.get l).offset) = true := by
    intro i j l hij hjl
    simp only [decide_eq_true_eq] at *
    omega
  have htotal : ∀ i j : Fin k, (decide ((vs.get i).offset ≤ (vs.get j).offset) ||
      decide ((vs.get j).offset ≤ (vs.get i).offset)) = true := by
    intro i j
    simp only [Bool.or_eq_true, decide_eq_true_eq]
    omega
  simpa only [offsetOrder, decide_eq_true_eq] using
    List.pairwise_mergeSort htrans htotal (List.finRange k)

theorem mem_offsetOrder (vs : Vector Violation k) (i : Fin k) : i ∈ offsetOrder vs :=
  (List.mergeSort_perm _ _).mem_iff.2 (List.mem_finRange i)

end Visits

/-- The merge pass gives all violations the rows that their offsets are looked up
to have, and does nothing else. -/
theorem Violation.resolveRows_eq_map (newlines : List Nat) (vs : List Violation) :
    resolveRows newlines vs = vs.map fun v => v.withRow (rowOf newlines v.offset) := by
  apply List.ext_getElem
  · simp [resolveRows]
  · intro j hj hj'
    let i : Fin vs.toArray.size := ⟨j, by simpa using hj'⟩
    -- no newline has been passed yet, and every place is visited
    have h : (mergeRows (offsetOrder vs.toArray.toVector) ([] : List Nat).length newlines
        vs.toArray.toVector).get i = _ :=
      get_mergeRows (fun _ _ _ hn => absurd hn List.not_mem_nil) (pairwise_offsetOrder _)
        (.inl (mem_offsetOrder _ i))
    rw [List.getElem_map]
    exact h

end CartridgeAudit
