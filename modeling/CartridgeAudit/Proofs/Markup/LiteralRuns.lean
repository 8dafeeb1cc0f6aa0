/-
CartridgeAudit/Proofs/Markup/LiteralRuns.lean

The text runs that are reported as literal text.

The finder of literal text is a filter over what the lexer yields: it fails with
the error that the lexer yields, and without one it reports the text runs that have
a line beginning with literal text, each with its own text and offset
(`hardcodedStrings_eq_literals`).
-/
import CartridgeAudit.Proofs.Markup.Lexer
import CartridgeAudit.Proofs.Markup.LiteralText

namespace CartridgeAudit.Markup

open Pattern

/-- There is no literal text in an empty run. -/
theorem ne_nil_of_hasLiteralLine {t : Text} (h : hasLiteralLine t = true) : t ≠ [] := by
  rintro rfl
  exact absurd h (by decide)

/-- The violation that an item of a lexer is: a text run with a line that begins with
literal text. -/
def literalOf : Except AuditError Piece → Option Violation
  | .ok (.text start content) =>
      if h : hasLiteralLine content = true then
        some ⟨content, start, none, ne_nil_of_hasLiteralLine h⟩
      else none
  | .ok (.tag _ _) | .ok (.ignored _ _ _) | .error _ => none

/-- The items of a lexing hold the violations that its literal runs are. -/
theorem violationsAt_literalRuns (segments : List Segment) (failure : Option ScanError) :
    (literalRuns segments).mapM violationAt =
      .ok ((itemsOf segments failure).filterMap literalOf) := by
  have hfailure :
      (failure.toList.map fun e => (.error (.scan e) : Except AuditError Piece)).filterMap
        literalOf = [] := by
    cases failure <;> rfl
  rw [itemsOf, List.filterMap_append, hfailure, List.append_nil, List.filterMap_map, mapM_eq_ok_iff]
  induction segments with
  | nil => exact .nil
  | cons s segments ih =>
    cases s with
    | tag | ignored => exact ih
    | text start stop =>
      have hmatch := hardcodedString_isMatch (start.upTo stop)
      by_cases hline : hasLiteralLine (start.upTo stop) = true
      · have hruns : literalRuns (.text start stop :: segments) =
            (start, stop) :: literalRuns segments :=
          List.filterMap_cons_some (if_pos (hmatch.trans hline))
        have hitem :
            (literalOf ∘ fun s : Segment => .ok s.piece) (Segment.text start stop) = some _ :=
          dif_pos hline
        rw [hruns, List.filterMap_cons_some hitem]
        exact .cons (Violation.new_eq_ok_iff.2 ⟨rfl, rfl, rfl⟩) ih
      · have hruns : literalRuns (.text start stop :: segments) = literalRuns segments :=
          List.filterMap_cons_none (if_neg (hmatch ▸ hline))
        have hitem :
            (literalOf ∘ fun s : Segment => .ok s.piece) (Segment.text start stop) = none :=
          dif_neg hline
        rw [hruns, List.filterMap_cons_none hitem]
        exact ih

theorem error_mem_itemsOf {segments : List Segment} {failure : Option ScanError} {e : AuditError} :
    .error e ∈ itemsOf segments failure ↔ ∃ s, failure = some s ∧ e = .scan s := by
  cases failure <;> simp [itemsOf]

/-- **The finder of literal text is a filter over the lexer**: iterating over the lexer of a
text yields some items and no others; the finder fails with an error if and only if it is
among them, and otherwise reports, in their order, the text runs with a line that begins with
literal text. -/
theorem hardcodedStrings_eq_literals (text : Text) :
    ∃ items, (∀ yielded, (∃ last, Iterates (Lexer.new text scriptTags) yielded last) ↔
        yielded = items) ∧
      (∀ e, hardcodedStrings text = .error e ↔ .error e ∈ items) ∧
      ∀ found, hardcodedStrings text = .ok found ↔
        (∀ e, .error e ∉ items) ∧ found = items.filterMap literalOf := by
  refine ⟨_, fun yielded => iterates_new_iff, ?_⟩
  rw [hardcodedStrings_eq, violationsAt_literalRuns _ (lex scriptTags text).failure]
  simp only [error_mem_itemsOf]
  cases (lex scriptTags text).failure with
  | some s =>
    -- the failure is the only error, and there is no answer
    simp [eq_comm]
  | none => simp [eq_comm]

end CartridgeAudit.Markup
