/-
CartridgeAudit/Pattern/Table.lean

Matching at all places of a text at once.

A continuation gives each place of a text a result or none, and so is a row of
results, one for each place from left to right.  An expression turns such a row
into another: at each place, what the continuation makes of the first outcome
that it accepts.  A sequence works its row out from the last expression to the
first, so nothing is tried twice, and the work is proportional to the length of
the text and the size of the expression (a repetition of more than a class
apart).  A row without results stays one, whatever stands before it, so a
sequence stops there.

`Regex.tabulate` computes rows, and `Regex.tabulate_places` says that they have
what the outcomes at each place say.
-/
import CartridgeAudit.Pattern.Outcome

namespace CartridgeAudit.Pattern

/-! ### Places -/

/-- Walks to the end of a text; `passed` has the places behind, latest first. -/
def walk : List Cursor → Text → Text → List Cursor
  | passed, before, [] => (⟨before, []⟩ :: passed).reverse
  | passed, before, c :: cs => walk (⟨before, c :: cs⟩ :: passed) (c :: before) cs

/-- The places from `before | after` to the end of the text. -/
def places (before after : Text) : List Cursor := walk [] before after

theorem walk_eq (passed : List Cursor) (before after : Text) :
    walk passed before after = passed.reverse ++ places before after := by
  induction after generalizing passed before with
  | nil => simp [places, walk]
  | cons c cs ih => rw [places, walk, walk, ih, ih]; simp

@[simp] theorem places_nil (before : Text) : places before [] = [⟨before, []⟩] := rfl

@[simp] theorem places_cons (before : Text) (c : Char) (cs : Text) :
    places before (c :: cs) = ⟨before, c :: cs⟩ :: places (c :: before) cs := by
  rw [places, walk, walk_eq]; rfl

theorem length_after_le_of_mem_places {before after : Text} {p : Cursor}
    (h : p ∈ places before after) : p.after.length ≤ after.length := by
  induction after generalizing before with
  | nil => simp_all
  | cons c cs ih =>
      rw [places_cons, List.mem_cons] at h
      rcases h with rfl | h
      · exact Nat.le_refl _
      · exact Nat.le_succ_of_le (ih h)

/-! ### Rows -/

/-- The results of a continuation, place by place. -/
abbrev Row (α : Type) := List (Option (α × Groups))

/-- A result behind the next character, if that character is in a class. -/
def passOne (c : CharClass) (p : Cursor) (behind : Option β) : Option β :=
  match behind, p.after with
  | some b, x :: _ => if c.contains x then some b else none
  | _, _ => none

/-- One character of a class: the results behind it. -/
def singleRow (c : CharClass) (ps : List Cursor) (row : List (Option β)) : List (Option β) :=
  List.zipWith (passOne c) ps (row.tail ++ [none])

/-- A run of a class: at each place it stops or goes on, in the order of
preference. -/
def manyRow (c : CharClass) (lazy : Bool) (ps : List Cursor) (row : List (Option β)) :
    List (Option β) :=
  (ps.zip row).foldr
    (fun x rest =>
      let further := passOne c x.1 (rest.headD none)
      (if lazy then x.2.or further else further.or x.2) :: rest)
    []

/-- A repetition: at each place one more round that moves, or none. -/
def starRow (step : List Cursor → List (Option β) → List (Option β)) :
    List Cursor → List (Option β) → List (Option β)
  | [], _ => []
  | p :: ps, row =>
      let rest := starRow step ps row.tail
      ((step (p :: ps) (none :: rest)).headD none).or (row.headD none) :: rest

/-- The row of an expression before a continuation. -/
def Regex.tabulate : Regex → {α : Type} → List Cursor → Row α → Row α
  | .empty, _, _, row => row
  | .single c, _, ps, row => singleRow c ps row
  | .many c lazy, _, ps, row => manyRow c lazy ps row
  | .seq r s, _, ps, row =>
      let behind := s.tabulate ps row
      if behind.all Option.isNone then behind else r.tabulate ps behind
  | .alt r s, _, ps, row => List.zipWith Option.or (r.tabulate ps row) (s.tabulate ps row)
  | .star r, _, ps, row => starRow r.tabulate ps row
  | .capture i r, _, ps, row =>
      let marked := List.zipWith (fun q x => x.map fun y => ((q, y.1), y.2)) ps row
      List.zipWith (fun p x => x.map fun y => (y.1.2, y.2 ++ [(i, p, y.1.1)])) ps
        (r.tabulate ps marked)
  | .assert a, _, ps, row => List.zipWith (fun p x => if a.holds p then x else none) ps row

/-! ### Rows have what the outcomes say -/

theorem zipWith_map_self (f : γ → β → δ) (g : γ → β) (l : List γ) :
    List.zipWith f l (l.map g) = l.map fun a => f a (g a) := by
  induction l with
  | nil => rfl
  | cons a l ih => simp [ih]

theorem zipWith_map_map (f : β → β' → δ) (g : γ → β) (h : γ → β') (l : List γ) :
    List.zipWith f (l.map g) (l.map h) = l.map fun a => f (g a) (h a) := by
  induction l with
  | nil => rfl
  | cons a l ih => simp [ih]

@[simp] theorem head?_places (before after : Text) :
    (places before after).head? = some ⟨before, after⟩ := by
  cases after <;> simp

theorem passOne_cons (c : CharClass) (before : Text) (x : Char) (xs : Text) (b : Option β) :
    passOne c ⟨before, x :: xs⟩ b = if c.contains x then b else none := by
  cases b <;> simp [passOne]

theorem passOne_nil (c : CharClass) (before : Text) (b : Option β) :
    passOne c ⟨before, []⟩ b = none := by
  cases b <;> simp [passOne]

theorem singleRow_places (c : CharClass) (k : Cursor → Option (α × Groups))
    (before after : Text) :
    singleRow c (places before after) ((places before after).map k) =
      (places before after).map ((Regex.single c).firstWith k) := by
  induction after generalizing before with
  | nil => simp [singleRow, passOne_nil, Regex.firstWith_single]
  | cons x xs ih =>
      have h := ih (x :: before)
      cases xs with
      | nil => simp_all [singleRow, passOne_cons, Regex.firstWith_single]
      | cons y ys => simp_all [singleRow, passOne_cons, Regex.firstWith_single]

theorem manyRow_places (c : CharClass) (lazy : Bool) (k : Cursor → Option (α × Groups))
    (before after : Text) :
    manyRow c lazy (places before after) ((places before after).map k) =
      (places before after).map ((Regex.many c lazy).firstWith k) := by
  induction after generalizing before with
  | nil => cases lazy <;> simp [manyRow, passOne_nil, Regex.firstWith_many_nil]
  | cons x xs ih =>
      have h := ih (x :: before)
      rw [manyRow] at h
      simp only [manyRow, places_cons, List.map_cons, List.zip_cons_cons, List.foldr_cons, h,
        passOne_cons, Regex.firstWith_many_cons]
      simp

theorem starRow_places (r : Regex) (k : Cursor → Option (α × Groups))
    (ih : ∀ (k : Cursor → Option (α × Groups)) (before after : Text),
      r.tabulate (places before after) ((places before after).map k) =
        (places before after).map (r.firstWith k))
    (before after : Text) :
    starRow r.tabulate (places before after) ((places before after).map k) =
      (places before after).map ((Regex.star r).firstWith k) := by
  induction after generalizing before with
  | nil =>
      have h := ih (fun q => if q.after.length < 0 then (Regex.star r).firstWith k q else none)
        before []
      simp at h
      simp [starRow, h, Regex.firstWith_star r k]
  | cons x xs ihx =>
      let later (q : Cursor) :=
        if q.after.length < (x :: xs).length then (Regex.star r).firstWith k q else none
      have hrow : none :: (places (x :: before) xs).map ((Regex.star r).firstWith k) =
          (places before (x :: xs)).map later := by
        rw [places_cons, List.map_cons]
        refine congr (congrArg _ (by simp [later])) (List.map_congr_left fun q hq => ?_)
        have hle := length_after_le_of_mem_places hq
        exact (if_pos (Nat.lt_succ_of_le hle)).symm
      have h := ih later before (x :: xs)
      rw [← hrow, places_cons] at h
      simp only [places_cons, List.map_cons, starRow, List.tail_cons, ihx, h, List.headD_cons]
      rw [Regex.firstWith_star r k ⟨before, x :: xs⟩]

/-! ### Rows without results -/

theorem zipWith_replicate_none (f : Cursor → Option β → Option γ) (hf : ∀ p, f p none = none)
    (ps : List Cursor) :
    List.zipWith f ps (List.replicate ps.length none) = List.replicate ps.length none := by
  induction ps with
  | nil => rfl
  | cons p ps ih => simp [List.replicate_succ, hf, ih]

theorem singleRow_replicate_none (c : CharClass) (ps : List Cursor) :
    singleRow c ps (List.replicate ps.length (none : Option β)) =
      List.replicate ps.length none := by
  cases ps with
  | nil => rfl
  | cons p ps =>
      rw [singleRow, List.length_cons, List.replicate_succ, List.tail_cons,
        ← List.replicate_succ', ← List.replicate_succ]
      exact zipWith_replicate_none (passOne c) (fun _ => rfl) (p :: ps)

theorem manyRow_replicate_none (c : CharClass) (lazy : Bool) (ps : List Cursor) :
    manyRow c lazy ps (List.replicate ps.length (none : Option β)) =
      List.replicate ps.length none := by
  induction ps with
  | nil => rfl
  | cons p ps ih =>
      have hd : (List.replicate ps.length (none : Option β)).headD none = none := by
        cases ps <;> rfl
      rw [manyRow] at ih
      rw [manyRow, List.length_cons, List.replicate_succ, List.zip_cons_cons, List.foldr_cons, ih,
        hd]
      cases lazy <;> rfl

/-- A row without results stays one. -/
theorem Regex.tabulate_replicate_none (r : Regex) {α : Type} (ps : List Cursor) :
    r.tabulate ps (List.replicate ps.length (none : Option (α × Groups))) =
      List.replicate ps.length none := by
  induction r generalizing α ps with
  | empty => rfl
  | single c => exact singleRow_replicate_none c ps
  | many c lazy => exact manyRow_replicate_none c lazy ps
  | seq r s _ ihs => simp [tabulate, ihs]
  | alt r s ihr ihs => simp [tabulate, ihr, ihs]
  | star r ih =>
      rw [tabulate]
      induction ps with
      | nil => rfl
      | cons p ps ihp =>
          have h := @ih α (p :: ps)
          simp_all [starRow, List.replicate_succ]
  | capture i r ih =>
      rw [tabulate, zipWith_replicate_none _ (fun _ => rfl), ih,
        zipWith_replicate_none _ (fun _ => rfl)]
  | assert a => exact zipWith_replicate_none _ (fun p => by simp) ps

theorem eq_replicate_none {l : List γ} {f : γ → Option β}
    (h : (l.map f).all Option.isNone = true) : l.map f = List.replicate l.length none := by
  rw [List.eq_replicate_iff]
  exact ⟨by simp, fun x hx => by simpa using List.all_eq_true.1 h x hx⟩

/-- Each place of a row has what the continuation makes of the first outcome
there that it accepts. -/
theorem Regex.tabulate_places (r : Regex) {α : Type} (k : Cursor → Option (α × Groups))
    (before after : Text) :
    r.tabulate (places before after) ((places before after).map k) =
      (places before after).map (r.firstWith k) := by
  induction r generalizing α k before after with
  | empty => exact List.map_congr_left fun p _ => (firstWith_empty k p).symm
  | single c => exact singleRow_places c k before after
  | many c lazy => exact manyRow_places c lazy k before after
  | seq r s ihr ihs =>
      have hseq : r.tabulate (places before after) (s.tabulate (places before after)
          ((places before after).map k)) = (places before after).map ((seq r s).firstWith k) := by
        rw [ihs, ihr]
        exact List.map_congr_left fun p _ => (firstWith_seq r s k p).symm
      rw [tabulate]
      split
      · next h =>
          rw [ihs] at h hseq ⊢
          rw [← hseq, eq_replicate_none h, tabulate_replicate_none]
      · exact hseq
  | alt r s ihr ihs =>
      rw [tabulate, ihr, ihs, zipWith_map_map]
      exact List.map_congr_left fun p _ => (firstWith_alt r s k p).symm
  | star r ih => exact starRow_places r k (fun k b a => ih k b a) before after
  | capture i r ih =>
      rw [tabulate, zipWith_map_self, ih, zipWith_map_self]
      exact List.map_congr_left fun p _ => (firstWith_capture i r k p).symm
  | assert a =>
      rw [tabulate, zipWith_map_self]
      exact List.map_congr_left fun p _ => (firstWith_assert a k p).symm

end CartridgeAudit.Pattern
