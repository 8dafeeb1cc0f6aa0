/-
CartridgeAudit/Proofs/Text/Parts.lean

Parts of a text around a mark.

A mark is a character that a search stops at.  A word without the mark that
begins, ends or lies in a text with the mark does so on one side of the mark;
this is what keeps a search on its side of a tag's end, of a digit or of the end
of a line.
-/
import CartridgeAudit.Text.Cursor
import Mathlib.Data.List.Infix

namespace CartridgeAudit.Text

/-! ### Words on one side of a mark -/

section

variable {t a b : Text} {x : Char}

theorem prefix_of_prefix_append_cons (hx : x ∉ t) (h : t <+: a ++ x :: b) : t <+: a := by
  rcases List.prefix_or_prefix_of_prefix h (List.prefix_append a (x :: b)) with ht | ⟨u, rfl⟩
  · exact ht
  · -- a longer one would go on with `x`
    have hu : u <+: x :: b := (List.prefix_append_right_inj a).1 h
    rcases List.prefix_cons_iff.1 hu with rfl | ⟨v, rfl, -⟩
    · rw [List.append_nil]
    · exact absurd (List.mem_append_right a List.mem_cons_self) hx

/-- Whether a word begins a text that ends in the mark does not depend on what
is behind the mark. -/
theorem prefix_concat_append_iff (hx : x ∉ t) : t <+: a ++ [x] ++ b ↔ t <+: a ++ [x] := by
  constructor
  · intro h
    rw [List.append_assoc] at h
    exact (prefix_of_prefix_append_cons hx h).trans (List.prefix_append a [x])
  · exact fun h => h.trans (List.prefix_append _ b)

theorem infix_of_infix_append_cons (hx : x ∉ t) (h : t <:+: a ++ x :: b) : t <:+: a ∨ t <:+: b := by
  induction a with
  | nil =>
    rcases List.infix_cons_iff.1 h with hprefix | hpart
    · exact .inl (prefix_of_prefix_append_cons (a := []) hx hprefix).isInfix
    · exact .inr hpart
  | cons y a ih =>
    rcases List.infix_cons_iff.1 h with hprefix | hpart
    · exact .inl (prefix_of_prefix_append_cons (a := y :: a) hx hprefix).isInfix
    · exact (ih hpart).imp_left fun h => List.infix_cons_iff.2 (.inr h)

end

/-! ### Suffixes that end in a mark -/

theorem not_suffix_of_not_mem {a : Char} {u x s : Text} (hs : s ≠ []) (ha : a ∉ s) :
    ¬ u ++ [a] <:+ x ++ s := by
  obtain ⟨s, z, rfl⟩ := List.eq_nil_or_concat s |>.resolve_left hs
  rw [List.concat_eq_append, ← List.append_assoc, List.suffix_concat_iff]
  rintro (hnil | ⟨u', hu, -⟩)
  · simp at hnil
  · obtain ⟨-, hz⟩ := List.append_inj' hu rfl
    simp [List.cons.inj hz] at ha

/-- A suffix without a mark does not go back over the mark. -/
theorem suffix_of_suffix_of_not_mem {a : Char} {u x s : Text} (ha : a ∉ u)
    (h : u <:+ x ++ a :: s) : u <:+ s := by
  have hs : s <:+ x ++ a :: s := ⟨x ++ [a], by simp⟩
  rcases List.suffix_or_suffix_of_suffix h hs with hu | ⟨w, rfl⟩
  · exact hu
  · rcases List.eq_nil_or_concat w with rfl | ⟨w', z, rfl⟩
    · exact List.suffix_refl s
    · obtain ⟨y, hy⟩ := h
      have heq : (y ++ w') ++ z :: s = x ++ a :: s := by simpa using hy
      obtain ⟨-, hz⟩ := List.append_inj' heq rfl
      obtain ⟨rfl, -⟩ := List.cons.inj hz
      simp at ha

/-- A suffix that begins with a mark does not begin in a part without the mark. -/
theorem cons_suffix_of_not_mem {a : Char} {u x s : Text} (ha : a ∉ x)
    (h : a :: u <:+ x ++ s) : a :: u <:+ s := by
  rcases List.suffix_or_suffix_of_suffix h (List.suffix_append x s) with hu | ⟨w, hw⟩
  · exact hu
  · cases w with
    | nil => exact ⟨[], hw.symm⟩
    | cons b w =>
      obtain ⟨rfl, rfl⟩ := List.cons.inj hw
      obtain ⟨y, hy⟩ := h
      have hys : (y ++ b :: w) ++ s = x ++ s := by simpa using hy
      have hx := List.append_cancel_right hys
      simp [← hx] at ha

theorem concat_suffix_of_suffix {a : Char} {u x s : Text} (hs : s ≠ []) (ha : a ∉ u)
    (h : u ++ [a] <:+ x ++ a :: s) : u ++ [a] <:+ s := by
  obtain ⟨s, z, rfl⟩ := List.eq_nil_or_concat s |>.resolve_left hs
  have heq : x ++ a :: s.concat z = (x ++ a :: s) ++ [z] := by simp
  rw [heq, List.suffix_concat_iff] at h
  rcases h with hnil | ⟨u', hu, hin⟩
  · simp at hnil
  · obtain ⟨rfl, hz⟩ := List.append_inj' hu rfl
    obtain ⟨rfl, -⟩ := List.cons.inj hz
    rw [List.concat_eq_append, List.suffix_append_self_iff]
    exact suffix_of_suffix_of_not_mem ha hin

end CartridgeAudit.Text
