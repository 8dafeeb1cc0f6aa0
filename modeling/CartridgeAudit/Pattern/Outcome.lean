/-
CartridgeAudit/Pattern/Outcome.lean

What an expression can match ahead of a place, by preference.

`Regex.outcomes r p` lists every way in which `r` can match from the place `p`
on, the preferred one first.  A sequence tries the continuations of the first
outcome before those of the second, a choice lists its first alternative first,
and a run lists its lengths downwards (upwards if it is lazy).  A repetition
wants every round to move on.

The list is for reasoning, since it can be long.  What is asked of it is the
first outcome that can be continued (`Regex.firstWith`), and that is settled by
the parts of an expression: one equation for each kind of expression says how.
-/
import CartridgeAudit.Pattern.Regex

namespace CartridgeAudit.Pattern

/-! ### Outcomes -/

/-- Captures with their numbers, the one that begins last first. -/
abbrev Groups := List (Nat × Cursor × Cursor)

/-- A way to match: where it ends, and what it captures. -/
structure Outcome where
  stop : Cursor
  groups : Groups
  deriving DecidableEq

/-- An outcome that follows another, which captured `earlier`. -/
def Outcome.behind (earlier : Groups) (o : Outcome) : Outcome := ⟨o.stop, o.groups ++ earlier⟩

/-- The places reached by passing over none, one, two, … characters of a class. -/
def stops (k : CharClass) : Text → Text → List Cursor
  | before, [] => [⟨before, []⟩]
  | before, c :: cs =>
      ⟨before, c :: cs⟩ :: if k.contains c then stops k (c :: before) cs else []

/-- Repeats a step up to `n` times, most rounds first; a round has to move. -/
def rounds (step : Cursor → List Outcome) : Nat → Cursor → List Outcome
  | 0, p => [⟨p, []⟩]
  | n + 1, p =>
      ((step p).filter fun o => o.stop.after.length < p.after.length).flatMap
        (fun o => (rounds step n o.stop).map (·.behind o.groups)) ++ [⟨p, []⟩]

/-- The ways to match ahead of a place, the preferred one first. -/
@[simp] def Regex.outcomes : Regex → Cursor → List Outcome
  | .empty, p => [⟨p, []⟩]
  | .single k, p =>
      match p.after with
      | [] => []
      | c :: cs => if k.contains c then [⟨⟨c :: p.before, cs⟩, []⟩] else []
  | .many k lazy, p =>
      let ends := stops k p.before p.after
      (if lazy then ends else ends.reverse).map fun q => ⟨q, []⟩
  | .seq r s, p => (r.outcomes p).flatMap fun o => (s.outcomes o.stop).map (·.behind o.groups)
  | .alt r s, p => r.outcomes p ++ s.outcomes p
  | .star r, p => rounds r.outcomes p.after.length p
  | .capture i r, p => (r.outcomes p).map fun o => ⟨o.stop, o.groups ++ [(i, p, o.stop)]⟩
  | .assert a, p => if a.holds p then [⟨p, []⟩] else []

/-- There are no more rounds than characters ahead. -/
theorem rounds_eq (step : Cursor → List Outcome) (n : Nat) (p : Cursor)
    (h : p.after.length ≤ n) :
    rounds step n p =
      ((step p).filter fun o => o.stop.after.length < p.after.length).flatMap
        (fun o => (rounds step o.stop.after.length o.stop).map (·.behind o.groups)) ++
      [⟨p, []⟩] := by
  induction n using Nat.strongRecOn generalizing p with
  | _ n ih =>
      cases n with
      | zero => simp [rounds, show p.after.length = 0 by omega]
      | succ n =>
          rw [rounds, List.flatMap_def, List.flatMap_def]
          refine congrArg (fun l => l.flatten ++ _) (List.map_congr_left fun o ho => ?_)
          have hlt : o.stop.after.length < p.after.length := by simpa using (List.mem_filter.1 ho).2
          rw [ih n (by omega) o.stop (by omega), ih _ (by omega) o.stop (Nat.le_refl _)]

/-! ### The first outcome that can be continued -/

/-- Captures added to a continuation. -/
def withGroups (earlier : Groups) (x : α × Groups) : α × Groups := (x.1, x.2 ++ earlier)

/-- What a continuation makes of the first outcome that it accepts. The
continuation depends on the place only, and gives a result with captures. -/
def Regex.firstWith (r : Regex) (k : Cursor → Option (α × Groups)) (p : Cursor) :
    Option (α × Groups) :=
  (r.outcomes p).findSome? fun o => (k o.stop).map (withGroups o.groups)

theorem map_findSome? (f : β → Option γ) (g : γ → δ) (l : List β) :
    (l.findSome? f).map g = l.findSome? fun b => (f b).map g := by
  induction l with
  | nil => rfl
  | cons b l ih => simp only [List.findSome?_cons]; cases f b <;> simp [ih]

theorem findSome?_flatMap (f : β → List γ) (k : γ → Option α) (l : List β) :
    (l.flatMap f).findSome? k = l.findSome? fun b => (f b).findSome? k := by
  induction l with
  | nil => rfl
  | cons b l ih =>
      simp only [List.flatMap_cons, List.findSome?_append, List.findSome?_cons, ih]
      cases (f b).findSome? k <;> rfl

theorem findSome?_filter (q : β → Bool) (k : β → Option α) (l : List β) :
    (l.filter q).findSome? k = l.findSome? fun b => if q b then k b else none := by
  induction l with
  | nil => rfl
  | cons b l ih => cases h : q b <;> simp [h, ih, List.findSome?_cons]

@[simp] theorem withGroups_nil (x : α × Groups) : withGroups [] x = x := by simp [withGroups]

@[simp] theorem map_withGroups_nil (x : Option (α × Groups)) : x.map (withGroups []) = x := by
  cases x <;> simp

namespace Regex

theorem firstWith_empty (k : Cursor → Option (α × Groups)) (p : Cursor) :
    empty.firstWith k p = k p := by
  simp [firstWith, outcomes, List.findSome?_cons]
  cases k p <;> rfl

theorem firstWith_single (c : CharClass) (k : Cursor → Option (α × Groups)) (p : Cursor) :
    (single c).firstWith k p =
      match p.after with
      | [] => none
      | x :: xs => if c.contains x then k ⟨x :: p.before, xs⟩ else none := by
  simp only [firstWith, outcomes]
  cases p.after with
  | nil => rfl
  | cons x xs => cases h : c.contains x <;> simp [h]

theorem firstWith_seq (r s : Regex) (k : Cursor → Option (α × Groups)) (p : Cursor) :
    (seq r s).firstWith k p = r.firstWith (s.firstWith k) p := by
  simp only [firstWith, outcomes, findSome?_flatMap, List.findSome?_map, map_findSome?,
    Function.comp_def, Outcome.behind, Option.map_map, withGroups, List.append_assoc]
  rfl

theorem firstWith_alt (r s : Regex) (k : Cursor → Option (α × Groups)) (p : Cursor) :
    (alt r s).firstWith k p = (r.firstWith k p).or (s.firstWith k p) := by
  simp [firstWith, outcomes, List.findSome?_append]

theorem firstWith_capture (i : Nat) (r : Regex) (k : Cursor → Option (α × Groups)) (p : Cursor) :
    (capture i r).firstWith k p =
      (r.firstWith (fun q => (k q).map fun x => ((q, x.1), x.2)) p).map
        fun x => (x.1.2, x.2 ++ [(i, p, x.1.1)]) := by
  simp only [firstWith, outcomes, List.findSome?_map, map_findSome?, Function.comp_def,
    Option.map_map, withGroups, List.append_assoc]
  rfl

theorem firstWith_assert (a : Anchor) (k : Cursor → Option (α × Groups)) (p : Cursor) :
    (assert a).firstWith k p = if a.holds p then k p else none := by
  cases h : a.holds p <;> simp [firstWith, outcomes, h]

theorem firstWith_star (r : Regex) (k : Cursor → Option (α × Groups)) (p : Cursor) :
    (star r).firstWith k p =
      (r.firstWith
        (fun q => if q.after.length < p.after.length then (star r).firstWith k q else none) p).or
        (k p) := by
  simp only [firstWith, outcomes]
  rw [rounds_eq _ _ _ (Nat.le_refl _), List.findSome?_append, findSome?_flatMap, findSome?_filter]
  congr 1
  · refine congrArg (fun f => (r.outcomes p).findSome? f) (funext fun o => ?_)
    by_cases h : o.stop.after.length < p.after.length
    · simp only [h, decide_true, if_true, List.findSome?_map, map_findSome?, Function.comp_def,
        Outcome.behind, Option.map_map, withGroups, List.append_assoc]
      rfl
    · simp [h]
  · simp

/-- A run at the end of a text. -/
theorem firstWith_many_nil (c : CharClass) (lazy : Bool) (k : Cursor → Option (α × Groups))
    (before : Text) : (many c lazy).firstWith k ⟨before, []⟩ = k ⟨before, []⟩ := by
  cases lazy <;> simp [firstWith, outcomes, stops]

/-- A run stops here or goes on, in the order of preference. -/
theorem firstWith_many_cons (c : CharClass) (lazy : Bool) (k : Cursor → Option (α × Groups))
    (before : Text) (x : Char) (xs : Text) :
    (many c lazy).firstWith k ⟨before, x :: xs⟩ =
      let further := if c.contains x then (many c lazy).firstWith k ⟨x :: before, xs⟩ else none
      if lazy then (k ⟨before, x :: xs⟩).or further else further.or (k ⟨before, x :: xs⟩) := by
  cases lazy <;> cases h : c.contains x <;>
    simp only [firstWith, outcomes, stops, h, List.findSome?_append, List.findSome?_cons,
      List.findSome?_map, List.reverse_cons, List.map_append, List.map_cons, if_true,
      Bool.false_eq_true, if_false] <;>
    cases k ⟨before, x :: xs⟩ <;> simp

end Regex

end CartridgeAudit.Pattern
