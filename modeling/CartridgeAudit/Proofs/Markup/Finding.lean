/-
CartridgeAudit/Proofs/Markup/Finding.lean

What the finders return for a template.

Each finder is said once in terms of the lexing, so that nothing else opens it.
The finder of literal text fails where reading does, and else reports the text
runs that the pattern is found in (`hardcodedStrings_eq`).  The finder of inline
styles judges one tag after the other before it looks at how reading ended
(`inlineStyleTags_eq`, `styledTags_cases`).  To make a violation never fails,
since no such run and no tag is empty.

A failure names a byte offset.  It is never before the place where the failing
scanner set out (`Reading.le_failure`, `le_of_isStyled_eq_error`).
-/
import CartridgeAudit.Markup.Finding
import CartridgeAudit.Proofs.Markup.Reading
import CartridgeAudit.Proofs.Report.Rows

namespace CartridgeAudit

/-- The byte offset that a scanner's failure names. -/
def ScanError.offset : ScanError → Nat
  | .unterminatedScope _ offset | .unterminatedTag offset | .missingSequence _ offset => offset

namespace Markup

open Cursor Pattern

/-! ### Where failures lie -/

theorem le_of_closeFrom_eq_error {name inner : Nat} {c : Cursor} {e : ScanError}
    (h : closeFrom name (.tag inner) c.before c.after = .error e) (hn : name ≤ c.offset) :
    name ≤ e.offset := by
  induction inner, c using tagReading_induction with
  | finish inner before =>
    obtain rfl := Except.error.inj h
    exact Nat.le_refl name
  | close before xs => cases h
  | closeInner inner before xs ih | openInner inner before xs ih =>
    exact ih h (Nat.le_trans hn (offset_le_of_le (lt_cons _ _ _).le))
  | expression inner before xs d hd ih =>
    rw [closeFrom_tag_brace, hd] at h
    have hlt := (lt_cons before '\x7b' xs).trans (lt_of_closeScope hd)
    exact ih h (Nat.le_trans hn (offset_le_of_le hlt.le))
  | unclosed inner before xs hd =>
    rw [closeFrom_tag_brace, hd] at h
    obtain rfl := Except.error.inj h
    exact hn
  | other inner before x xs hx ih =>
    rw [closeFrom_tag_other _ _ _ _ hx] at h
    exact ih h (Nat.le_trans hn (offset_le_of_le (lt_cons _ _ _).le))

theorem le_of_closeTag_eq_error {name : Cursor} {e : ScanError} (h : closeTag name = .error e) :
    name.offset ≤ e.offset := by
  unfold closeTag closeComment at h
  split at h
  · split at h
    · cases h
    · obtain rfl := Except.error.inj h
      exact Nat.le_refl _
  · exact le_of_closeFrom_eq_error h (Nat.le_refl _)

theorem le_of_closeIgnored_eq_error {element : Text} {name : Cursor} {e : ScanError}
    (h : closeIgnored element name = .error e) : name.offset ≤ e.offset := by
  unfold closeIgnored at h
  simp only at h
  split at h
  · cases h
  · obtain rfl := Except.error.inj h
    exact Nat.le_refl _

/-- Reading fails at a tag ahead. -/
theorem Reading.le_failure {ignored : List Text} {c : Cursor} {segments : List Segment}
    {e : ScanError} (h : Reading ignored c segments (some e)) : c.offset ≤ e.offset := by
  have hname : ∀ {c start : Cursor}, tagFrom c.before c.after = some start →
      c.offset ≤ start.next.offset := fun hs =>
    offset_le_of_le ((tagFrom_eq_some_iff.1 hs).1.trans (le_next _))
  generalize hf : some e = f at h
  induction h with
  | finish => cases hf
  | elementFails hs _ he =>
    obtain rfl := Option.some.inj hf
    exact Nat.le_trans (hname hs) (le_of_closeIgnored_eq_error he)
  | element hs _ hstop _ ih =>
    have hle := offset_le_of_le (le_of_closeIgnored hstop)
    exact Nat.le_trans (hname hs) (Nat.le_trans hle (ih hf))
  | tagFails hs _ he =>
    obtain rfl := Option.some.inj hf
    exact Nat.le_trans (hname hs) (le_of_closeTag_eq_error he)
  | @tag c start stop run rest f hs _ hstop hrun _ ih =>
    have hrun : stop ≤ run := hrun ▸ le_textEnd stop
    have hle := offset_le_of_le ((le_of_closeTag hstop).trans hrun)
    exact Nat.le_trans (hname hs) (Nat.le_trans hle (ih hf))

theorem le_of_hasInlineStyle_eq_error {n skip : Nat} {moved : Bool} {c : Cursor} {e : ScanError}
    (h : hasInlineStyle n skip moved c = .error e) : c.offset ≤ e.offset := by
  fun_induction hasInlineStyle n skip moved c with
  | case1 => cases h
  | case2 n skip moved c ih => exact Nat.le_trans (offset_le_of_le c.le_next) (ih h)
  | case3 => cases h
  | case4 n moved c _ _ ih => exact Nat.le_trans (offset_le_of_le c.le_next) (ih h)
  | case5 n moved c _ _ e' he =>
    obtain rfl := Except.error.inj h
    exact le_of_closeTag_eq_error he
  | case6 n moved c _ _ stop _ ih => exact Nat.le_trans (offset_le_of_le c.le_next) (ih h)
  | case7 n moved c _ _ ih => exact Nat.le_trans (offset_le_of_le c.le_next) (ih h)

theorem le_of_isStyled_eq_error {start stop : Cursor} {e : ScanError}
    (h : isStyled start stop = .error e) : start.offset ≤ e.offset := by
  unfold isStyled at h
  split at h
  · cases h
  · exact le_of_hasInlineStyle_eq_error h

/-! ### Violations -/

/-- The text between two places, made a violation. -/
def violationAt (span : Cursor × Cursor) : Except AuditError Violation :=
  Violation.new (span.1.upTo span.2) span.1.offset

section

variable {spans : List (Cursor × Cursor)} {found : List Violation}

theorem exists_violationsAt (h : ∀ s ∈ spans, s.1.upTo s.2 ≠ []) :
    ∃ found, spans.mapM violationAt = .ok found :=
  exists_mapM_eq_ok fun s hs => Violation.exists_new (h s hs) s.1.offset

theorem mem_violationsAt_iff (h : spans.mapM violationAt = .ok found) {v : Violation} :
    v ∈ found ↔ ∃ s ∈ spans, v.Marks (s.1.upTo s.2) s.1.offset := by
  simp only [mem_iff_of_mapM_eq_ok h, violationAt, Violation.new_eq_ok_iff]

theorem exists_violation_of_mem (h : spans.mapM violationAt = .ok found) {s : Cursor × Cursor}
    (hs : s ∈ spans) : ∃ v ∈ found, v.Marks (s.1.upTo s.2) s.1.offset := by
  obtain ⟨v, hv, hnew⟩ := exists_of_mem_of_mapM_eq_ok h hs
  exact ⟨v, hv, Violation.new_eq_ok_iff.1 hnew⟩

end

/-- A finder's answer is silent on the bytes from `lo` to `hi`: no violation has
one of them in its text, and no failure lies there. -/
def SilentOn (lo hi : Nat) : Except AuditError (List Violation) → Prop
  | .ok found => ∀ v ∈ found, v.offset + v.text.byteLength ≤ lo ∨ hi ≤ v.offset
  | .error e => ∃ s, e = .scan s ∧ (s.offset < lo ∨ hi ≤ s.offset)

theorem silentOn_violationsAt {spans : List (Cursor × Cursor)} {lo hi : Nat}
    (hne : ∀ s ∈ spans, s.1.upTo s.2 ≠ [])
    (h : ∀ s ∈ spans, ∀ v : Violation, v.Marks (s.1.upTo s.2) s.1.offset →
      v.offset + v.text.byteLength ≤ lo ∨ hi ≤ v.offset) :
    SilentOn lo hi (spans.mapM violationAt) := by
  obtain ⟨found, hfound⟩ := exists_violationsAt hne
  rw [hfound]
  intro v hv
  obtain ⟨s, hs, hmarks⟩ := (mem_violationsAt_iff hfound).1 hv
  exact h s hs v hmarks

/-! ### Literal text -/

/-- The text runs that the pattern for literal text is found in. -/
def literalRuns (segments : List Segment) : List (Cursor × Cursor) :=
  segments.filterMap fun
    | .text start stop =>
        if Catalog.hardcodedString.isMatch (start.upTo stop) then some (start, stop) else none
    | _ => none

theorem mem_literalRuns_iff {segments : List Segment} {start stop : Cursor} :
    (start, stop) ∈ literalRuns segments ↔
      .text start stop ∈ segments ∧
        Catalog.hardcodedString.isMatch (start.upTo stop) = true := by
  rw [literalRuns, List.mem_filterMap]
  constructor
  · rintro ⟨_ | _ | ⟨a, b⟩, hs, heq⟩
    · cases heq
    · cases heq
    · obtain ⟨hm, heq⟩ := Option.ite_none_right_eq_some.1 heq
      obtain ⟨rfl, rfl⟩ := Prod.mk.inj (Option.some.inj heq)
      exact ⟨hs, hm⟩
  · rintro ⟨hs, hm⟩
    exact ⟨_, hs, if_pos hm⟩

/-- The pattern for literal text is not found in an empty run. -/
theorem upTo_ne_nil_of_mem_literalRuns {segments : List Segment} :
    ∀ s ∈ literalRuns segments, s.1.upTo s.2 ≠ [] := by
  rintro ⟨start, stop⟩ hs hnil
  have hm := (mem_literalRuns_iff.1 hs).2
  have hno : Catalog.hardcodedString.isMatch [] = false := by decide +kernel
  rw [show start.upTo stop = [] from hnil, hno] at hm
  cases hm

/-- The finder of literal text fails where reading does, and else reports the
runs that the pattern is found in. -/
theorem hardcodedStrings_eq (text : Text) :
    hardcodedStrings text =
      match (lex scriptTags text).failure with
      | some e => .error (.scan e)
      | none => (literalRuns (lex scriptTags text).segments).mapM violationAt := by
  rw [hardcodedStrings, segments]
  cases (lex scriptTags text).failure <;> rfl

/-! ### Inline styles -/

/-- The verdict on a tag comes before the verdicts on what is behind it. -/
theorem styledTags_tag (start stop : Cursor) (rest : List Segment) :
    styledTags (.tag start stop :: rest) =
      match isStyled start stop, styledTags rest with
      | .error e, _ => .error e
      | .ok _, .error e => .error e
      | .ok styled, .ok found => .ok (if styled then (start, stop) :: found else found) := by
  rw [styledTags]
  cases isStyled start stop with
  | error e => rfl
  | ok styled => cases styledTags rest <;> rfl

theorem styledTags_append (segments rest : List Segment) :
    styledTags (segments ++ rest) =
      match styledTags segments, styledTags rest with
      | .error e, _ => .error e
      | .ok _, .error e => .error e
      | .ok found, .ok more => .ok (found ++ more) := by
  induction segments with
  | nil =>
    rw [List.nil_append]
    cases styledTags rest <;> rfl
  | cons s segments ih =>
    cases s with
    | ignored | text => exact ih
    | tag start stop =>
      rw [List.cons_append, styledTags_tag, styledTags_tag, ih]
      cases isStyled start stop with
      | error e => rfl
      | ok styled =>
        cases styledTags segments with
        | error e => rfl
        | ok found =>
          cases styledTags rest with
          | error e => rfl
          | ok more => cases styled <;> rfl

/-- Either one of the tags cannot be judged, or those found are those judged to
have a style. -/
theorem styledTags_cases (segments : List Segment) :
    (∃ e start stop, styledTags segments = .error e ∧ .tag start stop ∈ segments ∧
      isStyled start stop = .error e) ∨
    (∃ found, styledTags segments = .ok found ∧ ∀ start stop, (start, stop) ∈ found ↔
      .tag start stop ∈ segments ∧ isStyled start stop = .ok true) := by
  induction segments with
  | nil => exact .inr ⟨[], rfl, by simp⟩
  | cons s segments ih =>
    cases s with
    | ignored | text => simpa [styledTags] using ih
    | tag a b =>
      rw [styledTags_tag]
      cases hab : isStyled a b with
      | error e => exact .inl ⟨e, a, b, rfl, List.mem_cons_self, hab⟩
      | ok styled =>
        rcases ih with ⟨e, start, stop, he, hs, hbad⟩ | ⟨found, hfound, hiff⟩
        · rw [he]
          exact .inl ⟨e, start, stop, rfl, List.mem_cons_of_mem _ hs, hbad⟩
        · rw [hfound]
          refine .inr ⟨_, rfl, fun start stop => ?_⟩
          cases styled with
          | false =>
            have hne : isStyled start stop = .ok true → ¬ (start = a ∧ stop = b) := by
              rintro hs ⟨rfl, rfl⟩
              simp [hab] at hs
            simp only [Bool.false_eq_true, if_false, hiff, List.mem_cons, Segment.tag.injEq]
            grind
          | true =>
            have heq : start = a ∧ stop = b → isStyled start stop = .ok true := by
              rintro ⟨rfl, rfl⟩
              exact hab
            simp only [if_true, List.mem_cons, hiff, Segment.tag.injEq, Prod.mk.injEq]
            grind

/-- If verdicts are given, then on every tag. -/
theorem exists_isStyled_of_styledTags {segments : List Segment} {found : List (Cursor × Cursor)}
    (h : styledTags segments = .ok found) {start stop : Cursor} (hs : .tag start stop ∈ segments) :
    ∃ styled, isStyled start stop = .ok styled := by
  induction segments generalizing found with
  | nil => cases hs
  | cons s segments ih =>
    cases s with
    | ignored | text =>
      rcases List.mem_cons.1 hs with hs | hs
      · cases hs
      · exact ih h hs
    | tag a b =>
      rw [styledTags_tag] at h
      cases hab : isStyled a b with
      | error e => simp [hab] at h
      | ok styled =>
        cases hrest : styledTags segments with
        | error e => simp [hab, hrest] at h
        | ok rest =>
          rcases List.mem_cons.1 hs with hs | hs
          · obtain ⟨rfl, rfl⟩ := Segment.tag.inj hs
            exact ⟨styled, hab⟩
          · exact ih hrest hs

theorem upTo_ne_nil_of_mem_styledTags {text : Text} {found : List (Cursor × Cursor)}
    (h : styledTags (lex scriptTags text).segments = .ok found) :
    ∀ s ∈ found, s.1.upTo s.2 ≠ [] := by
  rcases styledTags_cases (lex scriptTags text).segments with
    ⟨e, -, -, he, -⟩ | ⟨tags, htags, hiff⟩
  · rw [he] at h
    cases h
  · obtain rfl := Except.ok.inj (htags.symm.trans h)
    intro s hs
    have hlt := ((reading_lex scriptTags text).of_isElement ((hiff _ _).1 hs).1 rfl).1
    exact (leads_upTo hlt.le).lt_iff.1 hlt

/-- The finder of inline styles fails where judging does, else where reading
does, and else reports the tags that are judged to have a style. -/
theorem inlineStyleTags_eq (text : Text) :
    inlineStyleTags text =
      match styledTags (lex scriptTags text).segments, (lex scriptTags text).failure with
      | .error e, _ => .error (.scan e)
      | .ok _, some e => .error (.scan e)
      | .ok found, none => found.mapM violationAt := rfl

end Markup

end CartridgeAudit
