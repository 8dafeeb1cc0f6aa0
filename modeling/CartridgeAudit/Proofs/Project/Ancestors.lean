/-
CartridgeAudit/Proofs/Project/Ancestors.lean

The directories above a path.

The parent of a path is its text without the last piece that stands for a
component, so a parent has fewer components (`length_components_parent`).  The list
of ancestors is cut at as many steps as there are components; by then it has come to
a path without a parent, and nothing is cut (`ancestors_eq`).

`Climbs` says the same without a list: going up from parent to parent leads past
some directories to another.  It is what the list of ancestors is split by
(`Climbs.exists_ancestors`, `climbs_of_ancestors`).
-/
import CartridgeAudit.Proofs.Project.PathParts

namespace CartridgeAudit.Path

variable {p q dir : Path} {passed : List Path}

/-! ### The beginning of a path -/

/-- A path starts at the root if its first piece is empty and not the only one. -/
theorem isAbsolute_iff : p.isAbsolute = true ↔ ∃ rest, rest ≠ [] ∧ p.pieces = "" :: rest := by
  constructor
  · intro h
    obtain ⟨rest, hrest⟩ := List.head?_eq_some_iff.1 (eq_of_beq h)
    refine ⟨(rest.splitOnP (· == '/')).map String.ofList, ?_, ?_⟩
    · exact mt List.map_eq_nil_iff.1 (List.splitOnP_ne_nil _ _)
    · rw [pieces_eq, hrest, List.splitOnP_cons_eq_if_modifyHead, if_pos (by rfl)]
      rfl
  · rintro ⟨rest, hne, hpieces⟩
    obtain ⟨text⟩ := p
    rw [pieces_eq] at hpieces
    rw [isAbsolute]
    cases hchars : text.toList with
    | nil =>
      rw [show (Path.mk text).text.toList = [] from hchars] at hpieces
      exact absurd (List.cons.inj hpieces).2.symm hne
    | cons x xs =>
      rw [show (Path.mk text).text.toList = x :: xs from hchars,
        List.splitOnP_cons_eq_if_modifyHead] at hpieces
      split at hpieces
      · next hx => simpa [hchars] using hx
      · -- otherwise the first piece has a character
        obtain ⟨first, more, hcons⟩ :=
          List.exists_cons_of_ne_nil (List.splitOnP_ne_nil (· == '/') xs)
        rw [hcons] at hpieces
        have hfirst := (List.cons.inj hpieces).1
        simp at hfirst

/-- How a path begins is read off its pieces. -/
theorem lead_eq_of_pieces {rest rest' : List String} {first : String}
    (hp : p.pieces = first :: rest) (hq : q.pieces = first :: rest')
    (h : first = "" → (rest = [] ↔ rest' = [])) : p.lead = q.lead := by
  have habsolute : p.isAbsolute = q.isAbsolute := by
    rw [Bool.eq_iff_iff, isAbsolute_iff, isAbsolute_iff, hp, hq]
    constructor
    · rintro ⟨more, hne, heq⟩
      obtain ⟨rfl, rfl⟩ := List.cons.inj heq
      exact ⟨rest', mt (h rfl).2 hne, rfl⟩
    · rintro ⟨more, hne, heq⟩
      obtain ⟨rfl, rfl⟩ := List.cons.inj heq
      exact ⟨rest, mt (h rfl).1 hne, rfl⟩
  rw [lead, lead, habsolute, hp, hq]
  rfl

/-! ### Parents -/

theorem filterMap_dropVoid (pieces : List String) :
    (dropVoid pieces).filterMap componentOf = pieces.filterMap componentOf := by
  induction pieces with
  | nil => rfl
  | cons piece pieces ih =>
    rw [dropVoid] at ih ⊢
    cases hpiece : componentOf piece with
    | none =>
      rw [List.dropWhile_cons_of_pos (by simp [hpiece]), ih, List.filterMap_cons_none hpiece]
    | some c => rw [List.dropWhile_cons_of_neg (by simp [hpiece])]

/-- What is left when void pieces are dropped begins with a component. -/
theorem exists_componentOf_of_dropVoid {pieces rest : List String} {last : String}
    (h : dropVoid pieces = last :: rest) : ∃ c, componentOf last = some c := by
  have hlast := List.head?_dropWhile_not (fun p => (componentOf p).isNone) pieces
  rw [show pieces.dropWhile (fun p => (componentOf p).isNone) = last :: rest from h] at hlast
  simpa [Option.isNone_eq_false_iff, Option.isSome_iff_exists] using hlast

theorem filterMap_reverse_dropVoid (pieces : List String) :
    (dropVoid pieces).reverse.filterMap componentOf = pieces.reverse.filterMap componentOf := by
  rw [List.filterMap_reverse, filterMap_dropVoid, List.filterMap_reverse]

/-- The components behind the first piece, by the last of them. -/
theorem filterMap_of_dropVoid {rest before : List String} {last : String}
    (h : dropVoid rest.reverse = last :: before) :
    rest.filterMap componentOf = (before.reverse ++ [last]).filterMap componentOf := by
  rw [← List.reverse_cons, ← h, filterMap_reverse_dropVoid, List.reverse_reverse]

theorem mem_of_mem_dropVoid {pieces : List String} {piece : String}
    (h : piece ∈ dropVoid pieces) : piece ∈ pieces :=
  (List.dropWhile_suffix _).subset h

/-- What is kept of the pieces for a parent are pieces. -/
theorem slash_not_mem_of_mem_kept {first last : String} {rest before : List String}
    (hp : p.pieces = first :: rest) (hrest : dropVoid rest.reverse = last :: before) :
    ∀ x ∈ first :: (dropVoid before).reverse, '/' ∉ x.toList := by
  have hslash : ∀ piece ∈ first :: rest, '/' ∉ piece.toList := fun piece hpiece =>
    slash_not_mem_of_mem_pieces (hp ▸ hpiece)
  refine List.forall_mem_cons.2 ⟨hslash first List.mem_cons_self, fun x hx => ?_⟩
  have hbefore : x ∈ before := mem_of_mem_dropVoid (List.mem_reverse.1 hx)
  have hrev : x ∈ rest.reverse :=
    mem_of_mem_dropVoid (hrest ▸ List.mem_cons_of_mem last hbefore)
  exact hslash x (List.mem_cons_of_mem _ (List.mem_reverse.1 hrev))

/-- The empty pieces behind the last component aside, a parent is written like the path
without that component. -/
inductive ParentShape (p q : Path) : Prop
  | empty {first : String} {rest : List String} : p.pieces = first :: rest → first ≠ "" →
      q.text = "" → ParentShape p q
  | below {first last : String} {rest before kept : List String} {c : Component} :
      p.pieces = first :: rest → q.pieces = first :: kept →
      (first = "" → rest ≠ [] ∧ kept ≠ []) → componentOf last = some c →
      rest.filterMap componentOf = (before ++ [last]).filterMap componentOf →
      kept.filterMap componentOf = before.filterMap componentOf → ParentShape p q

theorem parentShape_of_parent (h : p.parent? = some q) : ParentShape p q := by
  obtain ⟨first, rest, hp⟩ := List.exists_cons_of_ne_nil p.pieces_ne_nil
  simp only [parent?, hp] at h
  cases hrest : dropVoid rest.reverse with
  | nil =>
    simp only [hrest] at h
    split at h
    · cases h
    · next hfirst =>
      obtain rfl := Option.some.inj h
      exact .empty hp hfirst rfl
  | cons last before =>
    obtain ⟨c, hc⟩ := exists_componentOf_of_dropVoid hrest
    have hinner := filterMap_of_dropVoid hrest
    have hne : rest ≠ [] := by
      rintro rfl
      cases hrest
    cases hkept : dropVoid before with
    | nil =>
      simp only [hrest, hkept] at h
      obtain rfl := Option.some.inj h
      have hnone :
          ([] : List String).filterMap componentOf = before.reverse.filterMap componentOf := by
        rw [← filterMap_reverse_dropVoid before, hkept, List.reverse_nil]
      split
      · next hfirst =>
        subst hfirst
        have hroot : pieces ⟨"/"⟩ = "" :: [""] := by decide +kernel
        exact .below hp hroot (fun _ => ⟨hne, List.cons_ne_nil _ _⟩) hc hinner hnone
      · next hfirst =>
        have hone : pieces ⟨first⟩ = first :: [] :=
          pieces_of_not_mem (slash_not_mem_of_mem_kept hp hrest first List.mem_cons_self)
        exact .below hp hone (fun h => absurd h hfirst) hc hinner hnone
    | cons piece more =>
      simp only [hrest, hkept] at h
      obtain rfl := Option.some.inj h
      have hmem := slash_not_mem_of_mem_kept hp hrest
      rw [hkept] at hmem
      have hbelow : (piece :: more).reverse.filterMap componentOf =
          before.reverse.filterMap componentOf := by
        rw [← hkept, filterMap_reverse_dropVoid]
      exact .below hp (pieces_intercalate (List.cons_ne_nil _ _) hmem)
        (fun _ => ⟨hne, by simp⟩) hc hinner hbelow

/-- A parent has fewer components. -/
theorem length_components_parent (h : p.parent? = some q) :
    q.components.length < p.components.length := by
  cases parentShape_of_parent h with
  | @empty first rest hp hfirst hq =>
    rw [components_of_text_eq_empty hq, List.length_nil, List.length_pos_iff, components_eq]
    intro hnil
    obtain ⟨hlead, hinner⟩ := List.append_eq_nil_iff.1 hnil
    rw [inner, hp, List.filterMap_eq_nil_iff] at hinner
    have hvoid : componentOf first = none := hinner first List.mem_cons_self
    -- a first piece that is not empty but void is a dot, which counts at the front
    have hdot : first = "." := by
      rw [componentOf] at hvoid
      split at hvoid
      · next h => simpa [hfirst] using h
      · split at hvoid <;> cases hvoid
    rw [lead, hp, hdot] at hlead
    split at hlead
    · cases hlead
    · cases hlead
  | @below first last rest before kept c hp hq hfirst hc hrest hkept =>
    have hlead : p.lead = q.lead := by
      refine lead_eq_of_pieces hp hq fun h => ?_
      obtain ⟨hr, hk⟩ := hfirst h
      exact ⟨fun h => absurd h hr, fun h => absurd h hk⟩
    rw [components_eq, components_eq, hlead, inner, inner, hp, hq, List.filterMap_cons,
      List.filterMap_cons, hrest, hkept, List.filterMap_append, List.filterMap_cons_some hc]
    split <;> simp

/-! ### The path and its parents -/

/-- More steps than there are components lead no further. -/
theorem ancestorsUpTo_eq_ancestors {n : Nat} (h : p.components.length ≤ n) :
    ancestorsUpTo n p = p.ancestors := by
  have hany : ∀ (n m : Nat) (p : Path), p.components.length ≤ n → p.components.length ≤ m →
      ancestorsUpTo n p = ancestorsUpTo m p := by
    intro n
    induction n with
    | zero =>
      intro m p hn hm
      cases m with
      | zero => rfl
      | succ m =>
        rw [ancestorsUpTo, ancestorsUpTo]
        split
        · rfl
        · next q hq =>
          have := length_components_parent hq
          omega
    | succ n ih =>
      intro m p hn hm
      cases hparent : p.parent? with
      | none => cases m <;> simp [ancestorsUpTo, hparent]
      | some q =>
        have hless := length_components_parent hparent
        cases m with
        | zero => omega
        | succ m =>
          simp only [ancestorsUpTo, hparent]
          rw [ih m q (by omega) (by omega)]
  exact hany n _ p h (Nat.le_refl _)

/-- **The ancestors of a path** are the path and those of its parent, if it has one. -/
theorem ancestors_eq (p : Path) :
    p.ancestors = p :: (match p.parent? with
      | none => []
      | some q => q.ancestors) := by
  cases hparent : p.parent? with
  | none =>
    rw [ancestors]
    cases p.components.length <;> simp [ancestorsUpTo, hparent]
  | some q =>
    have hless := length_components_parent hparent
    rw [← ancestorsUpTo_eq_ancestors (Nat.le_succ p.components.length), ancestorsUpTo, hparent]
    simp only
    rw [ancestorsUpTo_eq_ancestors (Nat.le_of_lt hless)]

/-! ### Climbing -/

/-- Going from `p` to its parent and so on leads past the directories `passed` to `dir`. -/
inductive Climbs : Path → List Path → Path → Prop
  | here (p : Path) : Climbs p [] p
  | up {p q dir : Path} {passed : List Path} : p.parent? = some q → Climbs q passed dir →
      Climbs p (p :: passed) dir

theorem Climbs.exists_ancestors (h : Climbs p passed dir) :
    ∃ above, p.ancestors = passed ++ dir :: above := by
  induction h with
  | here p => exact ⟨_, ancestors_eq p⟩
  | up hparent _ ih =>
    obtain ⟨above, habove⟩ := ih
    refine ⟨above, ?_⟩
    rw [ancestors_eq, hparent]
    simp only
    rw [habove, List.cons_append]

theorem climbs_of_ancestors {above : List Path} (h : p.ancestors = passed ++ dir :: above) :
    Climbs p passed dir := by
  induction passed generalizing p with
  | nil =>
    rw [ancestors_eq] at h
    obtain rfl := (List.cons.inj h).1
    exact .here p
  | cons b passed ih =>
    rw [ancestors_eq] at h
    obtain ⟨rfl, hrest⟩ := List.cons.inj h
    cases hparent : p.parent? with
    | none =>
      rw [hparent] at hrest
      cases passed <;> cases hrest
    | some q =>
      rw [hparent] at hrest
      exact .up hparent (ih hrest)

/-- Climbing leaves components behind. -/
theorem Climbs.length_components_le (h : Climbs p passed dir) :
    dir.components.length ≤ p.components.length := by
  induction h with
  | here p => exact Nat.le_refl _
  | up hparent _ ih => exact Nat.le_trans ih (Nat.le_of_lt (length_components_parent hparent))

/-- What is passed has more components than where one arrives. -/
theorem Climbs.length_components_lt_of_mem (h : Climbs p passed dir) {b : Path} (hb : b ∈ passed) :
    dir.components.length < b.components.length := by
  induction h with
  | here p => cases hb
  | up hparent hclimbs ih =>
    rcases List.mem_cons.1 hb with rfl | hb
    · exact Nat.lt_of_le_of_lt hclimbs.length_components_le (length_components_parent hparent)
    · exact ih hb

theorem Climbs.length_components_lt (h : Climbs p passed dir) (hpassed : passed ≠ []) :
    dir.components.length < p.components.length := by
  cases h with
  | here p => exact absurd rfl hpassed
  | up hparent hclimbs =>
    exact (Climbs.up hparent hclimbs).length_components_lt_of_mem List.mem_cons_self

end CartridgeAudit.Path
