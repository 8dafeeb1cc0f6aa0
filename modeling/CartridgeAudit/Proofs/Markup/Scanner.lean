/-
CartridgeAudit/Proofs/Markup/Scanner.lean

What the scanners of markup find.

Each scanner has one specification here, by places and not by its recursion:

* a tag start, a closing sequence and the end of a text run are first places
  with a property (`tagFrom_eq_some_iff`, `endOf_eq_some_iff`,
  `textEnd_eq_iff`);
* the reading of a tag passes over an expression as the scope scanner of
  scripts does (`closeFrom_expression`), and ends behind a `>` further on
  (`lt_of_closeFrom_eq_ok`).
-/
import CartridgeAudit.Markup.Segment
import CartridgeAudit.Proofs.Text.Place

namespace CartridgeAudit.Markup

open Cursor

/-! ### Tag starts -/

theorem tagFrom_eq_firstPlace (before after : Text) :
    tagFrom before after = firstPlace (fun m => isTagStart m.after) before after := by
  induction after generalizing before with
  | nil => simp [tagFrom, firstPlace, isTagStart]
  | cons x xs ih => simp only [tagFrom, firstPlace, ih]

theorem tagFrom_eq_some_iff {c d : Cursor} :
    tagFrom c.before c.after = some d ↔
      c ≤ d ∧ isTagStart d.after = true ∧ ∀ m, c ≤ m → isTagStart m.after = true → d ≤ m := by
  rw [tagFrom_eq_firstPlace, firstPlace_eq_some_iff]

theorem tagFrom_eq_none_iff {c : Cursor} :
    tagFrom c.before c.after = none ↔ ∀ m, c ≤ m → isTagStart m.after = false := by
  rw [tagFrom_eq_firstPlace, firstPlace_eq_none_iff]

/-- A tag begins where `<` stands before a character that is not blank. -/
theorem isTagStart_iff {t : Text} :
    isTagStart t = true ↔ ∃ x xs, t = '<' :: x :: xs ∧ Text.isBlank x = false := by
  constructor
  · intro h
    unfold isTagStart at h
    split at h
    · next x xs => exact ⟨x, xs, rfl, by simpa using h⟩
    · cases h
  · rintro ⟨x, xs, rfl, hx⟩
    simp [isTagStart, hx]

/-! ### Closing sequences -/

/-- One of the targets ends at a place; the empty one does not count. -/
def Follows (targets : List Text) (m : Cursor) : Prop :=
  ∃ t ∈ targets, t ≠ [] ∧ m.isAfter t = true

theorem endFrom_eq_firstPlace (reversed : List Text) (before after : Text) :
    endFrom reversed before after =
      firstPlace (fun m => reversed.any (·.isPrefixOf m.before)) before after := by
  induction after generalizing before with
  | nil => rfl
  | cons x xs ih => simp only [endFrom, firstPlace, ih]

theorem any_reversed_iff {targets : List Text} {m : Cursor} :
    (((targets.filter (!·.isEmpty)).map List.reverse).any (·.isPrefixOf m.before)) = true ↔
      Follows targets m := by
  simp only [List.any_eq_true, List.mem_map, List.mem_filter, Follows]
  constructor
  · rintro ⟨-, ⟨t, ⟨ht, hne⟩, rfl⟩, hp⟩
    exact ⟨t, ht, by simpa using hne, hp⟩
  · rintro ⟨t, ht, hne, hp⟩
    exact ⟨_, ⟨t, ⟨ht, by simpa using hne⟩, rfl⟩, hp⟩

/-- The end of a closing sequence is the first place that follows a target. -/
theorem endOf_eq_some_iff {targets : List Text} {c d : Cursor} :
    endOf targets c = some d ↔
      c ≤ d ∧ Follows targets d ∧ ∀ m, c ≤ m → Follows targets m → d ≤ m := by
  rw [endOf, endFrom_eq_firstPlace, firstPlace_eq_some_iff]
  simp only [any_reversed_iff]

theorem endOf_eq_none_iff {targets : List Text} {c : Cursor} :
    endOf targets c = none ↔ ∀ m, c ≤ m → ¬ Follows targets m := by
  rw [endOf, endFrom_eq_firstPlace, firstPlace_eq_none_iff]
  simp only [← any_reversed_iff, Bool.not_eq_true]

/-! ### Text runs -/

/-- Whether a text run ends here: at the end, and at a `<` that is not followed
by a space. -/
def endsRun : Text → Bool
  | [] => true
  | x :: xs => x = '<' && xs.head? != some ' '

theorem textEnd_eq_firstPlace (before after : Text) :
    firstPlace (fun m => endsRun m.after) before after = some (textEnd before after) := by
  induction after generalizing before with
  | nil => rfl
  | cons x xs ih =>
    rw [firstPlace, textEnd, ih]
    exact (apply_ite some _ _ _).symm

/-- A text run ends at the first place where it can. -/
theorem textEnd_eq_iff {c d : Cursor} :
    textEnd c.before c.after = d ↔
      c ≤ d ∧ endsRun d.after = true ∧ ∀ m, c ≤ m → endsRun m.after = true → d ≤ m := by
  rw [← Option.some_inj, ← textEnd_eq_firstPlace, firstPlace_eq_some_iff]

/-- No text run goes over a tag start. -/
theorem endsRun_of_isTagStart {t : Text} (h : isTagStart t = true) : endsRun t = true := by
  obtain ⟨x, xs, rfl, hx⟩ := isTagStart_iff.1 h
  have hne : x ≠ ' ' := by
    rintro rfl
    simp [Text.isBlank, Text.inRanges, Text.blankRanges] at hx
  simp [endsRun, hne]

/-! ### Expressions -/

/-- A scope ends further on, behind its closing delimiter. -/
theorem lt_of_closeScope {d : Script.Delimiter} {inner : Nat} {before after : Text} {e : Cursor}
    (h : d.closeFrom inner before after = some e) : (⟨before, after⟩ : Cursor) < e := by
  induction after generalizing inner before with
  | nil => cases h
  | cons x xs ih =>
    have hx := lt_cons before x xs
    unfold Script.Delimiter.closeFrom at h
    split at h
    · exact hx.trans (ih h)
    · split at h
      · cases inner with
        | zero =>
          obtain rfl := Option.some.inj h
          exact hx
        | succ n => exact hx.trans (ih h)
      · exact hx.trans (ih h)

/-- Inside an expression a tag is read as a script is: up to the brace that
closes the expression, and nothing else counts. -/
theorem closeFrom_expression (name inner : Nat) (opened : Cursor) (braces : Nat)
    (before after : Text) :
    closeFrom name (.expression inner opened braces) before after =
      match Script.Delimiter.brace.closeFrom braces before after with
      | some e => closeFrom name (.tag inner) e.before e.after
      | none => .error (.unterminatedScope '\x7b' opened.offset) := by
  induction after generalizing before braces with
  | nil => rfl
  | cons x xs ih =>
    by_cases hopen : x = '\x7b'
    · cases braces <;>
        simp [closeFrom, Script.Delimiter.closeFrom, Script.Delimiter.opener, hopen, ih]
    · by_cases hclose : x = '\x7d'
      · cases braces <;>
          simp [closeFrom, Script.Delimiter.closeFrom, Script.Delimiter.opener,
            Script.Delimiter.closer, hclose, ih]
      · cases braces <;>
          simp [closeFrom, Script.Delimiter.closeFrom, Script.Delimiter.opener,
            Script.Delimiter.closer, hopen, hclose, ih]

/-- By offsets, a scope is closed as it is by places. -/
theorem scopeEnd_offset (c : Cursor) :
    Script.scopeEnd c.text c.offset = (Script.closeScope c).map (·.offset) := by
  rw [Script.scopeEnd, Text.seek_offset]
  exact if_pos rfl

theorem scopeEnd_brace (before xs : Text) :
    Script.scopeEnd (text ⟨before, '\x7b' :: xs⟩) (offset ⟨before, '\x7b' :: xs⟩) =
      match Script.Delimiter.brace.closeFrom 0 ('\x7b' :: before) xs with
      | some e => .ok e.offset
      | none => .error (.scan (.unterminatedScope '\x7b' (Text.byteLength before))) := by
  rw [scopeEnd_offset]
  have h : Script.Delimiter.ofOpener? '\x7b' = some .brace := rfl
  simp only [Script.closeScope, h]
  cases Script.Delimiter.brace.closeFrom 0 ('\x7b' :: before) xs <;> rfl

/-! ### Tags -/

theorem closeFrom_tag_brace (name inner : Nat) (before xs : Text) :
    closeFrom name (.tag inner) before ('\x7b' :: xs) =
      match Script.Delimiter.brace.closeFrom 0 ('\x7b' :: before) xs with
      | some e => closeFrom name (.tag inner) e.before e.after
      | none => .error (.unterminatedScope '\x7b' (Text.byteLength before)) := by
  have h := closeFrom_expression name inner ⟨before, '\x7b' :: xs⟩ 0 ('\x7b' :: before) xs
  cases inner <;> exact h

theorem closeFrom_tag_open (name inner : Nat) (before xs : Text) :
    closeFrom name (.tag inner) before ('<' :: xs) =
      closeFrom name (.tag (inner + 1)) ('<' :: before) xs := by
  cases inner <;> rfl

/-- The characters that count in a tag, outside expressions. -/
def isMark (x : Char) : Bool := x = '<' || x = '>' || x = '\x7b'

theorem closeFrom_tag_other (name inner : Nat) (before : Text) {x : Char} (xs : Text)
    (hx : isMark x = false) :
    closeFrom name (.tag inner) before (x :: xs) =
      closeFrom name (.tag inner) (x :: before) xs := by
  simp only [isMark, Bool.or_eq_false_iff, decide_eq_false_iff_not] at hx
  obtain ⟨⟨hlt, hgt⟩, hbrace⟩ := hx
  cases inner <;> simp only [closeFrom, if_neg hgt, if_neg hlt, if_neg hbrace]

/-- Induction along the reading of a tag: one case for each mark, where an
expression is passed over as a whole. -/
@[elab_as_elim]
theorem tagReading_induction {P : Nat → Cursor → Prop}
    (finish : ∀ inner before, P inner ⟨before, []⟩)
    (close : ∀ before xs, P 0 ⟨before, '>' :: xs⟩)
    (closeInner : ∀ inner before xs, P inner ⟨'>' :: before, xs⟩ →
      P (inner + 1) ⟨before, '>' :: xs⟩)
    (openInner : ∀ inner before xs, P (inner + 1) ⟨'<' :: before, xs⟩ →
      P inner ⟨before, '<' :: xs⟩)
    (expression : ∀ inner before xs e,
      Script.Delimiter.brace.closeFrom 0 ('\x7b' :: before) xs = some e → P inner e →
      P inner ⟨before, '\x7b' :: xs⟩)
    (unclosed : ∀ inner before xs,
      Script.Delimiter.brace.closeFrom 0 ('\x7b' :: before) xs = none →
      P inner ⟨before, '\x7b' :: xs⟩)
    (other : ∀ inner before x xs, isMark x = false → P inner ⟨x :: before, xs⟩ →
      P inner ⟨before, x :: xs⟩)
    (inner : Nat) (c : Cursor) : P inner c := by
  -- what is ahead gets shorter in every case
  induction hn : c.after.length using Nat.strongRecOn generalizing inner c with
  | _ n ih =>
    obtain ⟨before, _ | ⟨x, xs⟩⟩ := c
    · exact finish inner before
    · have hxs : xs.length < n := by
        rw [← hn]
        exact Nat.lt_succ_self _
      by_cases hgt : x = '>'
      · subst hgt
        cases inner with
        | zero => exact close before xs
        | succ k => exact closeInner k before xs (ih _ hxs k ⟨_, xs⟩ rfl)
      · by_cases hlt : x = '<'
        · subst hlt
          exact openInner inner before xs (ih _ hxs _ ⟨_, xs⟩ rfl)
        · by_cases hbrace : x = '\x7b'
          · subst hbrace
            cases he : Script.Delimiter.brace.closeFrom 0 ('\x7b' :: before) xs with
            | none => exact unclosed inner before xs he
            | some e =>
              obtain ⟨s, hs⟩ := (lt_of_closeScope he).le
              have hl := congrArg List.length hs.ahead
              rw [List.length_append] at hl
              exact expression inner before xs e he (ih _ (by simp at hl; omega) inner e rfl)
          · have hx : isMark x = false := by simp [isMark, hgt, hlt, hbrace]
            exact other inner before x xs hx (ih _ hxs inner ⟨_, xs⟩ rfl)

/-- A tag ends further on. -/
theorem lt_of_closeFrom_eq_ok {name inner : Nat} {c d : Cursor}
    (h : closeFrom name (.tag inner) c.before c.after = .ok d) : c < d := by
  induction inner, c using tagReading_induction with
  | finish inner before => cases h
  | close before xs =>
    obtain rfl := Except.ok.inj h
    exact lt_cons before '>' xs
  | closeInner inner before xs ih => exact (lt_cons before '>' xs).trans (ih h)
  | openInner inner before xs ih => exact (lt_cons before '<' xs).trans (ih h)
  | expression inner before xs e he ih =>
    rw [closeFrom_tag_brace, he] at h
    exact ((lt_cons before _ xs).trans (lt_of_closeScope he)).trans (ih h)
  | unclosed inner before xs he =>
    rw [closeFrom_tag_brace, he] at h
    cases h
  | other inner before x xs hx ih =>
    rw [closeFrom_tag_other _ _ _ _ hx] at h
    exact (lt_cons before x xs).trans (ih h)

/-- A tag ends directly behind a `>`. -/
theorem head_of_closeFrom_eq_ok {name inner : Nat} {c d : Cursor}
    (h : closeFrom name (.tag inner) c.before c.after = .ok d) : d.before.head? = some '>' := by
  induction inner, c using tagReading_induction with
  | finish inner before => cases h
  | close before xs =>
    obtain rfl := Except.ok.inj h
    rfl
  | closeInner inner before xs ih => exact ih h
  | openInner inner before xs ih => exact ih h
  | expression inner before xs e he ih =>
    rw [closeFrom_tag_brace, he] at h
    exact ih h
  | unclosed inner before xs he =>
    rw [closeFrom_tag_brace, he] at h
    cases h
  | other inner before x xs hx ih =>
    rw [closeFrom_tag_other _ _ _ _ hx] at h
    exact ih h

end CartridgeAudit.Markup
