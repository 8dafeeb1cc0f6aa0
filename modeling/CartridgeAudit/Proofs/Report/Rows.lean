/-
CartridgeAudit/Proofs/Report/Rows.lean

The rows of violations, and their resolution.

A violation is made with a text and without a row (`Violation.new_eq_ok_iff`).
Its row is one more than the number of newline bytes before its offset
(`rowOf_newlines`).  Newlines are listed character by character and an offset
counts bytes, so the offset may lie inside a character, or behind the end of the
text; neither matters, because no byte of a longer character is a newline and
there are no bytes behind the end.

The violations of one file get their rows in one pass, whatever the order of their
offsets, and a second pass changes nothing (`FileAudit.resolve_gives_rows`).

Resolution gives rows and changes nothing else, and rows that it gives are
right (`FileAudit.Keeps`).  This holds of a list of audits wherever resolution
stops (`keepsAll_resolveAudits`), and it holds of one resolution after another
(`KeepsAll.trans`).
-/
import CartridgeAudit.Proofs.Project.Steps
import CartridgeAudit.Proofs.Report.MergePass
import CartridgeAudit.Proofs.Text.Place
import CartridgeAudit.Report.Session
import Mathlib.Data.List.Forall2

namespace CartridgeAudit

/-! ### Violations as they are made -/

/-- A violation is the one made for a text at an offset: it has no row yet. -/
structure Violation.Marks (v : Violation) (text : Text) (offset : Nat) : Prop where
  text_eq : v.text = text
  offset_eq : v.offset = offset
  row_eq : v.row = none

theorem Violation.new_eq_ok_iff {text : Text} {offset : Nat} {v : Violation} :
    Violation.new text offset = .ok v ↔ v.Marks text offset := by
  cases text with
  | nil =>
    constructor
    · intro h
      cases h
    · exact fun h => absurd h.text_eq v.text_ne_nil
  | cons c cs =>
    constructor
    · intro h
      obtain rfl := Except.ok.inj h
      exact ⟨rfl, rfl, rfl⟩
    · obtain ⟨text, offset, row, hne⟩ := v
      rintro ⟨rfl, rfl, rfl⟩
      rfl

theorem Violation.Marks.unique {text : Text} {offset : Nat} {v w : Violation}
    (hv : v.Marks text offset) (hw : w.Marks text offset) : v = w :=
  Except.ok.inj ((new_eq_ok_iff.2 hv).symm.trans (new_eq_ok_iff.2 hw))

/-- Every text makes a violation, unless it is empty. -/
theorem Violation.exists_new {text : Text} (h : text ≠ []) (offset : Nat) :
    ∃ v, Violation.new text offset = .ok v :=
  ⟨⟨text, offset, none, h⟩, new_eq_ok_iff.2 ⟨rfl, rfl, rfl⟩⟩

theorem Violation.forall₂_marks {α : Type} {l : List α} {text : α → Text} {offset : α → Nat}
    {found : List Violation}
    (h : (l.mapM fun x => Violation.new (text x) (offset x)) = .ok found) :
    List.Forall₂ (fun x v => Violation.Marks v (text x) (offset x)) l found :=
  (mapM_eq_ok_iff.1 h).imp fun _ _ hv => new_eq_ok_iff.1 hv

/-- Texts that are not empty all make violations. -/
theorem Violation.exists_mapM_new {α : Type} {l : List α} {text : α → Text} (offset : α → Nat)
    (h : ∀ x ∈ l, text x ≠ []) :
    ∃ found, (l.mapM fun x => Violation.new (text x) (offset x)) = .ok found ∧
      List.Forall₂ (fun x v => v.Marks (text x) (offset x)) l found := by
  obtain ⟨found, hfound⟩ := exists_mapM_eq_ok fun x hx => exists_new (h x hx) (offset x)
  exact ⟨found, hfound, forall₂_marks hfound⟩

/-- A violation as it is made. -/
def Violation.IsNew (v : Violation) : Prop :=
  ∃ text offset, Violation.new text offset = .ok v

theorem Violation.isNew_iff {v : Violation} : v.IsNew ↔ v.row = none := by
  constructor
  · rintro ⟨text, offset, h⟩
    exact (new_eq_ok_iff.1 h).row_eq
  · exact fun hrow => ⟨v.text, v.offset, new_eq_ok_iff.2 ⟨rfl, rfl, hrow⟩⟩

/-! ### Newline bytes -/

namespace Text

/-- The number of newline bytes at positions smaller than an offset. -/
def newlinesBefore (t : Text) (offset : Nat) : Nat :=
  (List.range offset).countP fun i => t.byteAt? i == some '\n'.toUInt8

@[simp] theorem newlinesBefore_zero (t : Text) : t.newlinesBefore 0 = 0 := rfl

theorem newlinesBefore_succ (t : Text) (k : Nat) :
    t.newlinesBefore (k + 1) =
      t.newlinesBefore k + if t.byteAt? k = some '\n'.toUInt8 then 1 else 0 := by
  simp only [newlinesBefore, List.range_succ, List.countP_append, List.countP_singleton, beq_iff_eq]

@[simp] theorem newlinesBefore_nil (k : Nat) : newlinesBefore [] k = 0 :=
  List.countP_eq_zero.2 fun _ _ => by simp [byteAt?]

/-- A newline is the first byte of its character, and no other character has one. -/
theorem newlinesBefore_cons (c : Char) (cs : Text) (k : Nat) :
    newlinesBefore (c :: cs) k =
      (if c = '\n' ∧ 0 < k then 1 else 0) + newlinesBefore cs (k - c.utf8Size) := by
  induction k with
  | zero => simp
  | succ k ih =>
    have hsize := c.utf8Size_pos
    rw [newlinesBefore_succ, ih]
    by_cases hk : k < c.utf8Size
    · -- byte `k` belongs to `c`
      rw [show k - c.utf8Size = 0 by omega, show k + 1 - c.utf8Size = 0 by omega,
        byteAt?_cons_of_lt hk]
      have hbyte : (String.utf8EncodeChar c)[k]? = some '\n'.toUInt8 ↔ k = 0 ∧ c = '\n' := by
        constructor
        · exact getElem?_utf8EncodeChar_eq_ascii (by decide)
        · rintro ⟨rfl, rfl⟩
          rfl
      simp only [hbyte]
      rcases Nat.eq_zero_or_pos k with rfl | hpos
      · simp
      · simp [hpos, Nat.pos_iff_ne_zero.1 hpos]
    · -- byte `k` lies behind `c`
      have hpos : 0 < k := by omega
      rw [show k + 1 - c.utf8Size = k - c.utf8Size + 1 by omega, newlinesBefore_succ, byteAt?,
        if_neg hk]
      simp only [hpos, Nat.succ_pos, and_true]
      omega

end Text

/-! ### Rows -/

theorem le_of_mem_newlinesFrom {t : Text} :
    ∀ {base n : Nat}, n ∈ newlinesFrom base t → base ≤ n := by
  induction t with
  | nil => exact fun h => absurd h List.not_mem_nil
  | cons c cs ih =>
    intro base n h
    rw [newlinesFrom] at h
    split at h
    · rcases List.mem_cons.1 h with rfl | h
      · exact Nat.le_refl n
      · exact Nat.le_trans (Nat.le_add_right _ _) (ih h)
    · exact Nat.le_trans (Nat.le_add_right _ _) (ih h)

theorem length_takeWhile_newlinesFrom (t : Text) : ∀ base k : Nat,
    ((newlinesFrom base t).takeWhile (· < base + k)).length = t.newlinesBefore k := by
  induction t with
  | nil => exact fun _ k => (Text.newlinesBefore_nil k).symm
  | cons c cs ih =>
    intro base k
    rw [Text.newlinesBefore_cons, newlinesFrom]
    split
    · next hc =>
      subst hc
      cases k with
      | zero => simp
      | succ k =>
        have h := ih (base + 1) k
        rw [show base + 1 + k = base + (k + 1) by omega] at h
        rw [List.takeWhile_cons_of_pos (by simp), List.length_cons, show '\n'.utf8Size = 1 from rfl,
          h]
        simp [Nat.add_comm]
    · next hc =>
      rw [if_neg fun h => hc h.1, Nat.zero_add]
      by_cases hk : c.utf8Size ≤ k
      · have h := ih (base + c.utf8Size) (k - c.utf8Size)
        rwa [show base + c.utf8Size + (k - c.utf8Size) = base + k by omega] at h
      · -- the offset lies inside `c`, and all newlines behind it
        rw [show k - c.utf8Size = 0 by omega, Text.newlinesBefore_zero]
        cases hl : newlinesFrom (base + c.utf8Size) cs with
        | nil => rfl
        | cons n ns =>
          have hn : base + c.utf8Size ≤ n :=
            le_of_mem_newlinesFrom (hl ▸ List.mem_cons_self)
          rw [List.takeWhile_cons_of_neg (by simp only [decide_eq_true_eq]; omega), List.length_nil]

/-- A row is one more than the number of newline bytes before the offset. -/
theorem rowOf_newlines (t : Text) (offset : Nat) :
    rowOf (newlines t) offset = t.newlinesBefore offset + 1 := by
  have h := length_takeWhile_newlinesFrom t 0 offset
  rw [Nat.zero_add] at h
  rw [rowOf, newlines, h]

-- `é` has two bytes, and offset 1 lies inside it
example : rowOf (newlines ['é', '\n', 'x', '\n']) 1 = 1 ∧
    rowOf (newlines ['é', '\n', 'x', '\n']) 3 = 2 ∧
    rowOf (newlines ['é', '\n', 'x', '\n']) 100 = 3 := by decide

/-! ### Lists that are related one by one -/

/-- Related one by one, twice in a row. -/
theorem forall₂_trans {α β γ : Type} {R : α → β → Prop} {S : β → γ → Prop} {T : α → γ → Prop}
    (htrans : ∀ {a b c}, R a b → S b c → T a c) {l : List α} {m : List β} {n : List γ}
    (h : List.Forall₂ R l m) (h' : List.Forall₂ S m n) : List.Forall₂ T l n := by
  induction h generalizing n with
  | nil =>
    cases h'
    exact List.Forall₂.nil
  | cons hab _ ih =>
    cases h' with
    | cons hbc h' => exact List.Forall₂.cons (htrans hab hbc) (ih h')

/-- What follows for the second of two related things holds of all of them. -/
theorem forall_mem_of_forall₂ {α β : Type} {R : α → β → Prop} {P : β → Prop} {l : List α}
    {m : List β} (h : List.Forall₂ R l m) (hP : ∀ a ∈ l, ∀ b, R a b → P b) : ∀ b ∈ m, P b := by
  induction h with
  | nil => exact List.forall_mem_nil P
  | cons hab _ ih =>
    obtain ⟨ha, hl⟩ := List.forall_mem_cons.1 hP
    exact List.forall_mem_cons.2 ⟨ha _ hab, ih hl⟩

/-! ### Resolution -/

/-- The row of a violation in a file. -/
def Violation.HasRowIn (v : Violation) (f : SourceFile) : Prop :=
  ∃ content, f.content = .ok content ∧ v.row = some (content.newlinesBefore v.offset + 1)

/-- A violation in a file is kept: its row may have been resolved, and nothing
else has changed. -/
structure Violation.Keeps (f : SourceFile) (v w : Violation) : Prop where
  text_eq : w.text = v.text
  offset_eq : w.offset = v.offset
  row : w.row = v.row ∨ w.HasRowIn f

theorem Violation.Keeps.refl (f : SourceFile) (v : Violation) : Keeps f v v := ⟨rfl, rfl, .inl rfl⟩

theorem Violation.Keeps.trans {f : SourceFile} {u v w : Violation} (h : Keeps f u v)
    (h' : Keeps f v w) : Keeps f u w := by
  refine ⟨h'.text_eq.trans h.text_eq, h'.offset_eq.trans h.offset_eq, ?_⟩
  rcases h'.row with hw | hw
  · -- the second step left the row, and the violation stands where it stood
    rcases h.row with hv | ⟨content, hcontent, hv⟩
    · exact .inl (hw.trans hv)
    · exact .inr ⟨content, hcontent, by rw [hw, hv, h'.offset_eq]⟩
  · exact .inr hw

namespace FileAudit

/-- An audit is kept: the file is the same, and so are the violations and their
order. -/
structure Keeps (a b : FileAudit) : Prop where
  file_eq : b.file = a.file
  violations : List.Forall₂ (Violation.Keeps a.file) a.violations b.violations

theorem Keeps.refl (a : FileAudit) : a.Keeps a :=
  ⟨rfl, List.forall₂_same.2 fun v _ => .refl a.file v⟩

theorem Keeps.trans {a b c : FileAudit} (h : a.Keeps b) (h' : b.Keeps c) : a.Keeps c := by
  refine ⟨h'.file_eq.trans h.file_eq, ?_⟩
  have hb := h'.violations
  rw [h.file_eq] at hb
  exact forall₂_trans .trans h.violations hb

/-- Resolution keeps an audit. -/
theorem keeps_of_resolve_eq_ok {a b : FileAudit} (h : a.resolve = .ok b) : a.Keeps b := by
  unfold resolve at h
  cases hcontent : a.file.content with
  | error e => simp [hcontent, Except.map] at h
  | ok content =>
    rw [hcontent] at h
    obtain rfl := Except.ok.inj h
    refine ⟨rfl, ?_⟩
    rw [withRows, Violation.resolveRows_eq_map]
    refine List.forall₂_map_right_iff.2 (List.forall₂_same.2 fun v _ => ?_)
    exact ⟨rfl, rfl, .inr ⟨content, hcontent, congrArg some (rowOf_newlines content v.offset)⟩⟩

end FileAudit

/-- A violation with its row, counted in bytes or looked up, and nothing else
changed. -/
structure Violation.IsResolved (content : Text) (v w : Violation) : Prop where
  text_eq : w.text = v.text
  offset_eq : w.offset = v.offset
  row_eq : w.row = some (content.newlinesBefore v.offset + 1)
  row_eq_rowOf : w.row = some (rowOf (newlines content) v.offset)

theorem Violation.isResolved_withRow (content : Text) (v : Violation) :
    v.IsResolved content (v.withRow (rowOf (newlines content) v.offset)) :=
  ⟨rfl, rfl, congrArg some (rowOf_newlines content v.offset), rfl⟩

/-- A file that can be read gets all its rows, and resolving them again changes
nothing. -/
theorem FileAudit.resolve_gives_rows (path : Path) (content : Text) (vs : List Violation) :
    ∃ ws, FileAudit.resolve ⟨⟨path, .ok content⟩, vs⟩ = .ok ⟨⟨path, .ok content⟩, ws⟩ ∧
      List.Forall₂ (Violation.IsResolved content) vs ws ∧
      FileAudit.resolve ⟨⟨path, .ok content⟩, ws⟩ = .ok ⟨⟨path, .ok content⟩, ws⟩ := by
  refine ⟨Violation.resolveRows (newlines content) vs, rfl, ?_, ?_⟩
  · rw [Violation.resolveRows_eq_map]
    exact List.forall₂_map_right_iff.2 (List.forall₂_same.2 fun v _ => v.isResolved_withRow content)
  · -- the offsets are what they were, and the rows only depend on them
    show Except.ok _ = _
    rw [withRows, Violation.resolveRows_eq_map, Violation.resolveRows_eq_map, List.map_map]
    rfl

-- out of order, twice at one place, and past the end
example : (Violation.resolveRows (newlines "a\nb\nc".toList)
    [⟨['x'], 100, none, by decide⟩, ⟨['y'], 2, none, by decide⟩, ⟨['z'], 0, none, by decide⟩,
      ⟨['w'], 2, some 7, by decide⟩]).map (·.row) =
      [some 3, some 2, some 1, some 2] := by
  rw [Violation.resolveRows_eq_map]; decide

/-- Audits are kept, one by one. -/
abbrev KeepsAll : List FileAudit → List FileAudit → Prop := List.Forall₂ FileAudit.Keeps

theorem KeepsAll.refl (l : List FileAudit) : KeepsAll l l := List.forall₂_same.2 fun a _ => .refl a

theorem KeepsAll.trans {l m n : List FileAudit} (h : KeepsAll l m) (h' : KeepsAll m n) :
    KeepsAll l n :=
  forall₂_trans .trans h h'

/-- Wherever it stops, resolution keeps all audits. -/
theorem keepsAll_resolveAudits (l : List FileAudit) : KeepsAll l (resolveAudits l).1 := by
  induction l with
  | nil => exact List.Forall₂.nil
  | cons a as ih =>
    rw [resolveAudits]
    cases h : a.resolve with
    | error e => exact .refl (a :: as)
    | ok b => exact List.Forall₂.cons (FileAudit.keeps_of_resolve_eq_ok h) ih

namespace Session

theorem keepsAll_resolveRows (s : Session) : KeepsAll s.failed s.resolveRows.1.failed :=
  keepsAll_resolveAudits s.failed

theorem keepsAll_report (s : Session) : KeepsAll s.failed s.report.1.failed := by
  unfold report
  split
  · exact s.keepsAll_resolveRows
  · exact .refl s.failed

@[simp] theorem filesChecked_report (s : Session) : s.report.1.filesChecked = s.filesChecked := by
  unfold report
  split <;> rfl

end Session

end CartridgeAudit
