/-
CartridgeAudit/Proofs/Document/NormalForm.lean

Normal forms are stable.

The normal form of a text is made in two passes: lower case, then no blanks.  The
first pass looks at what stands around a letter, and the second changes what stands
around it, so a final sigma may end up inside of a word and the dot of a capital I
behind another letter.  Neither matters when the passes are run again.  Each letter
that the first pass leaves is settled, that is, in lower case wherever it stands, and
dropping blanks drops no other letter.  So a normal form has settled letters that are
not blank (`isNormal_normalize`), such a text stays as it is (`IsNormal.normalize_eq`),
and a document that is made from the normal form of another is the same document
(`ofText_stable`).
-/
import CartridgeAudit.Proofs.Document.Sections

namespace CartridgeAudit.Document

/-! ### Texts in normal form -/

/-- In lower case wherever its letters stand, and without blanks. -/
structure IsNormal (t : Text) : Prop where
  isSettled : ∀ x ∈ t, Text.IsSettled x
  isBlank : ∀ x ∈ t, Text.isBlank x = false

variable {t : Text}

theorem isNormal_normalize (t : Text) : IsNormal (normalize t) :=
  ⟨fun _ hx => (of_mem_normalize hx).1, fun _ hx => (of_mem_normalize hx).2⟩

theorem IsNormal.normalize_eq (h : IsNormal t) : normalize t = t := by
  have hlower : Text.lower t = t := Text.lowerFrom_eq_self h.isSettled
  rw [normalize, hlower, List.filter_eq_self]
  intro x hx
  rw [h.isBlank x hx, Bool.not_false]

/-- **Normalizing twice is normalizing once.** -/
theorem normalize_normalize (t : Text) : normalize (normalize t) = normalize t :=
  (isNormal_normalize t).normalize_eq

/-- A sigma that is final before a blank stays final when the blank is gone. -/
example : normalize "ΑΣ Α".toList = "αςα".toList ∧ normalize "αςα".toList = "αςα".toList := by
  decide +kernel

/-! ### Documents -/

/-- A document depends on the normal form of its text only. -/
theorem ofText_eq_of_normalize_eq {raw raw' : Text} (h : normalize raw = normalize raw')
    (path : Path) (cartridges : CartridgeSet) :
    Document.ofText path raw cartridges = Document.ofText path raw' cartridges := by
  rw [Document.ofText, Document.ofText, h]

/-- **A document made from the content of another is the same document**: its content
has no blanks, and content, kind, coverage and parts stay. -/
theorem ofText_stable (path : Path) (raw : Text) (cartridges : CartridgeSet) :
    let d := Document.ofText path raw cartridges
    let again := Document.ofText path d.content cartridges
    (∀ x ∈ d.content, Text.isBlank x = false) ∧ again = d ∧
      again.content = d.content ∧ again.kind = d.kind ∧ again.coverage = d.coverage ∧
      firstPage again.content = firstPage d.content ∧
      tableOfContents again.content = tableOfContents d.content ∧
      mainContent again.content = mainContent d.content ∧
      ∀ name, sectionNamed again.content name = sectionNamed d.content name := by
  intro d again
  have hagain : again = d := ofText_eq_of_normalize_eq (normalize_normalize raw) path cartridges
  refine ⟨(isNormal_normalize raw).isBlank, hagain, ?_⟩
  rw [hagain]
  exact ⟨rfl, rfl, rfl, rfl, rfl, rfl, fun _ => rfl⟩

end CartridgeAudit.Document
