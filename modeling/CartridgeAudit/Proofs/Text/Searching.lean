/-
CartridgeAudit/Proofs/Text/Searching.lean

What searching and splitting find.

The searches of the auditor are plain recursions.  Each is tied here to the
relation on lists that it decides (`contains_iff`, `endsWith_iff`), and splitting
to the splitting of lists (`splitOn_eq_splitOnP`), whose lemmas it then shares.
-/
import CartridgeAudit.Proofs.Text.Place
import CartridgeAudit.Text.Search
import Mathlib.Data.List.Infix

namespace CartridgeAudit.Text

/-! ### Occurrences -/

theorem findFrom_isSome_iff (needle before t : Text) :
    (findFrom needle before t).isSome = true ↔ needle <:+: t := by
  induction t generalizing before with
  | nil => cases needle <;> simp [findFrom]
  | cons x xs ih =>
    rw [findFrom, List.infix_cons_iff]
    split
    · next h => simp [List.isPrefixOf_iff_prefix.1 h]
    · next h =>
      have hno : ¬ needle <+: x :: xs := fun hp => h (List.isPrefixOf_iff_prefix.2 hp)
      simp [hno, ih]

/-- What is found is the first place where the needle begins. -/
theorem findFrom_eq_firstPlace (needle before t : Text) :
    findFrom needle before t = Cursor.firstPlace (·.startsWith needle) before t := by
  induction t generalizing before with
  | nil => cases needle <;> rfl
  | cons x xs ih => rw [findFrom, ih]; rfl

theorem findFrom_eq_some_iff {needle before t : Text} {c : Cursor} :
    findFrom needle before t = some c ↔
      ⟨before, t⟩ ≤ c ∧ needle <+: c.after ∧
        ∀ m : Cursor, ⟨before, t⟩ ≤ m → needle <+: m.after → c ≤ m := by
  simp only [findFrom_eq_firstPlace, Cursor.firstPlace_eq_some_iff, Cursor.startsWith,
    List.isPrefixOf_iff_prefix]

/-- What is found lies ahead, and the needle begins there. -/
theorem prefix_of_findFrom {needle before t : Text} {c : Cursor}
    (h : findFrom needle before t = some c) : ⟨before, t⟩ ≤ c ∧ needle <+: c.after := by
  obtain ⟨hle, hprefix, -⟩ := findFrom_eq_some_iff.1 h
  exact ⟨hle, hprefix⟩

theorem contains_iff {needle t : Text} : contains t needle = true ↔ needle <:+: t :=
  findFrom_isSome_iff needle [] t

theorem endsWith_iff {t s : Text} : endsWith t s = true ↔ s <:+ t := by
  rw [endsWith, List.isPrefixOf_iff_prefix, List.reverse_prefix]

/-- A run of characters ends at the first one that has not their property. -/
theorem takeWhile_append_cons {p : Char → Bool} {t : Text} {x : Char} (ht : ∀ y ∈ t, p y = true)
    (hx : p x = false) (rest : Text) : (t ++ x :: rest).takeWhile p = t := by
  rw [List.takeWhile_append_of_pos ht, List.takeWhile_cons_of_neg (by simp [hx]), List.append_nil]

/-- What is cut is the text around the first occurrence of a character. -/
theorem cutAt_eq_some_iff {x : Char} {t before after : Text} :
    cutAt x t = some (before, after) ↔ t = before ++ x :: after ∧ x ∉ before := by
  induction t generalizing before with
  | nil => simp [cutAt]
  | cons y t ih =>
    rw [cutAt]
    split
    · next hy =>
      subst hy
      constructor
      · intro h
        obtain ⟨rfl, rfl⟩ := Prod.mk.inj (Option.some.inj h)
        exact ⟨rfl, List.not_mem_nil⟩
      · rintro ⟨h, hx⟩
        cases before with
        | nil => exact congrArg (fun t => some ([], t)) (List.cons.inj h).2
        | cons z before =>
          obtain ⟨rfl, -⟩ := List.cons.inj h
          exact absurd List.mem_cons_self hx
    · next hy =>
      rw [Option.map_eq_some_iff]
      constructor
      · rintro ⟨⟨a, b⟩, hab, h⟩
        obtain ⟨rfl, rfl⟩ := Prod.mk.inj h
        obtain ⟨rfl, ha⟩ := ih.1 hab
        exact ⟨rfl, List.not_mem_cons_of_ne_of_not_mem (Ne.symm hy) ha⟩
      · rintro ⟨h, hx⟩
        cases before with
        | nil => exact absurd (List.cons.inj h).1 hy
        | cons z before =>
          obtain ⟨rfl, rfl⟩ := List.cons.inj h
          exact ⟨(before, after), ih.2 ⟨rfl, mt (List.mem_cons_of_mem y) hx⟩, rfl⟩

/-! ### Splitting -/

theorem splitOn_eq_splitOnP (p : Char → Bool) (t : Text) : splitOn p t = t.splitOnP p := by
  induction t with
  | nil => rfl
  | cons x xs ih =>
    rw [splitOn, ih, List.splitOnP_cons_eq_if_modifyHead]
    split
    · rfl
    · obtain ⟨piece, rest, hcons⟩ := List.exists_cons_of_ne_nil (List.splitOnP_ne_nil p xs)
      rw [hcons]
      rfl

/-- No piece holds a character at which the text is split. -/
theorem eq_false_of_mem_splitOnP {p : Char → Bool} {t piece : Text} (h : piece ∈ t.splitOnP p) :
    ∀ x ∈ piece, p x = false := by
  induction t generalizing piece with
  | nil =>
    obtain rfl : piece = [] := by simpa using h
    simp
  | cons x xs ih =>
    rw [List.splitOnP_cons_eq_if_modifyHead] at h
    split at h
    · rcases List.mem_cons.1 h with rfl | h
      · simp
      · exact ih h
    · next hx =>
      obtain ⟨first, rest, hcons⟩ := List.exists_cons_of_ne_nil (List.splitOnP_ne_nil p xs)
      rw [hcons] at h ih
      rcases List.mem_cons.1 h with rfl | h
      · exact List.forall_mem_cons.2 ⟨by simpa using hx, ih List.mem_cons_self⟩
      · exact ih (List.mem_cons_of_mem _ h)

end CartridgeAudit.Text
