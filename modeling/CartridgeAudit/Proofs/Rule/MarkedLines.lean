/-
CartridgeAudit/Proofs/Rule/MarkedLines.lean

The lines that are reported for a word in them.

Two rules go by one word: an override of the cascade is reported with the whole line
around it, a note of unfinished work from its first place in the line on.  Both walk
over the matches of an expression in the text as a whole, and an expression that takes
the rest of a line can have one match in a line at most.  So each line with the word is
reported once, in the order of the lines (`marked_lines_reported`).
-/
import CartridgeAudit.Proofs.Rule.Spans
import CartridgeAudit.Proofs.Rule.UrlLines

namespace CartridgeAudit

open Cursor

/-! ### Notes in lines -/

/-- A violation is what stands in a line from the first place on where a word begins. -/
structure IsNoteOf (word : Text) (l : Line) (v : Violation) : Prop where
  begins : word <+: v.text
  place : ∃ before, l.text = before ++ v.text ∧ v.offset = l.offset + before.byteLength ∧
    ∀ s t, l.text = s ++ t → word <+: t → before.length ≤ s.length
  row : v.row = none

theorem isNoteOf_of_fromFirst {word : Text} {l note : Line} {v : Violation}
    (h : l.fromFirst word = some note) (hv : v.Marks note.text note.offset) :
    IsNoteOf word l v := by
  obtain ⟨first, hfind, rfl⟩ := Option.map_eq_some_iff.1 h
  obtain ⟨⟨before, hbefore⟩, hword, hfirst⟩ := Text.findFrom_eq_some_iff.1 hfind
  have htext : v.text = first.after := hv.text_eq
  refine ⟨htext ▸ hword, ⟨before, htext ▸ hbefore.ahead, ?_, ?_⟩, hv.row_eq⟩
  · rw [hv.offset_eq, hbefore.offset_eq]
    simp [Cursor.offset]
  · intro s t hst ht
    obtain ⟨d, hd, hdt⟩ : ∃ d, Leads ⟨[], l.text⟩ s d ∧ d.after = t :=
      ⟨⟨s.reverse ++ [], t⟩, ⟨hst, rfl⟩, rfl⟩
    obtain ⟨gap, hgap⟩ := hfirst d hd.le (hdt ▸ ht)
    rw [← hd.upTo_eq, (hbefore.trans hgap).upTo_eq, List.length_append]
    exact Nat.le_add_right _ _

/-- The lines with a word and the notes in them go together. -/
theorem forall₂_fromFirst (word : Text) (ls : List Line) :
    List.Forall₂ (fun l note => l.fromFirst word = some note)
      (ls.filter fun l => l.text.contains word) (ls.filterMap (Line.fromFirst word)) := by
  induction ls with
  | nil => exact .nil
  | cons l ls ih =>
    cases hfind : Text.find? word l.text with
    | none =>
      rw [List.filter_cons_of_neg, List.filterMap_cons_none]
      · exact ih
      · rw [Line.fromFirst, hfind]
        rfl
      · rw [Text.contains, hfind]
        exact Bool.false_ne_true
    | some first =>
      have hnote : l.fromFirst word = some ⟨first.after, l.offset + first.offset⟩ := by
        rw [Line.fromFirst, hfind]
        rfl
      rw [List.filter_cons_of_pos, List.filterMap_cons_some hnote]
      · exact .cons hnote ih
      · rw [Text.contains, hfind]
        rfl

namespace Rule

open Pattern Regex

theorem standsFor_importantMark : (lit "!important").StandsFor ["!important".toList] :=
  standsFor_literal (by decide) (by decide)

theorem standsFor_todoMark : (lit "TODO").StandsFor ["TODO".toList] :=
  standsFor_literal (by decide) (by decide)

theorem exists_overrides (t : Text) : ∃ found, overrides t = .ok found ∧
    List.Forall₂ (fun l v => Violation.Marks v l.text l.offset)
      (t.lines.filter fun l => l.text.contains "!important".toList) found := by
  have hexpr : Catalog.important = around (lit "!important") := rfl
  have hlines : (t.lines.filter fun l => l.text.contains "!important".toList) =
      ((around (lit "!important")).matchesIn t).map Match.line := by
    rw [standsFor_importantMark.map_matchesIn_around]
    simp only [holdsAny, List.any_cons, List.any_nil, Bool.or_false]
  rw [overrides, hexpr, hlines]
  simp only [List.forall₂_map_left_iff]
  exact exists_violations standsFor_importantMark.isProper_around t

theorem exists_todoNotes (t : Text) : ∃ found, todoNotes t = .ok found ∧
    List.Forall₂ (fun note v => Violation.Marks v note.text note.offset)
      (t.lines.filterMap (Line.fromFirst "TODO".toList)) found := by
  have hexpr : Catalog.todo = onward (lit "TODO") := rfl
  rw [todoNotes, hexpr, ← standsFor_todoMark.map_matchesIn_onward]
  simp only [List.forall₂_map_left_iff]
  exact exists_violations standsFor_todoMark.isProper_onward t

/-- **Each line with the word is reported once**, in the order of the lines: as a whole where
the word is `!important`, and from its first place on where it is `TODO`. -/
theorem marked_lines_reported (v : FileView) (notices : List Notice) :
    (∃ found, (noImportant.check v notices).1 = .ok found ∧
        List.Forall₂ (fun l w => Violation.Marks w l.text l.offset)
          (v.content.lines.filter fun l => l.text.contains "!important".toList) found) ∧
      ∃ found, (noTodo.check v notices).1 = .ok found ∧
        List.Forall₂ (IsNoteOf "TODO".toList)
          (v.content.lines.filter fun l => l.text.contains "TODO".toList) found := by
  refine ⟨exists_overrides v.content, ?_⟩
  obtain ⟨found, hfound, hmarks⟩ := exists_todoNotes v.content
  refine ⟨found, hfound, forall₂_trans ?_ (forall₂_fromFirst _ _) hmarks⟩
  exact isNoteOf_of_fromFirst

end Rule

end CartridgeAudit
