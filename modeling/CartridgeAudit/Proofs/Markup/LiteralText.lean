/-
CartridgeAudit/Proofs/Markup/LiteralText.lean

Literal text between tags, and which of it is reported.

The pattern for literal text is said by lines: it is found in a text if and only
if a line of the text, its leading blanks aside, begins with a character other
than `$` and `<` (`hardcodedString_isMatch`).

A `Stretch` goes from a place to the next tag start or the end of the text.  Of
the stretch behind a tag, the part up to the first `<` without a space behind is
looked at (`lookedAt`); the stretch behind an ignored element is not looked at.
Main result: literal text of a stretch is reported if and only if it begins a
line in a part that is looked at (`literal_reported_iff`).
-/
import CartridgeAudit.Proofs.Markup.Finding
import CartridgeAudit.Proofs.Pattern.Matches

namespace CartridgeAudit.Markup

open Cursor Pattern

/-! ### Lines that begin with literal text -/

/-- Whether the first character that is not blank exists, and is neither `$` nor
`<`. -/
def startsLiteral (line : Text) : Bool :=
  match line.trimStart with
  | [] => false
  | c :: _ => c != '$' && c != '<'

/-- Whether one of the lines begins with literal text. -/
def hasLiteralLine (t : Text) : Bool := (t.splitOn (· = '\n')).any startsLiteral

theorem startsLiteral_cons_of_isBlank {x : Char} {xs : Text} (h : Text.isBlank x = true) :
    startsLiteral (x :: xs) = startsLiteral xs := by
  simp [startsLiteral, Text.trimStart, h]

theorem startsLiteral_cons_of_not_isBlank {x : Char} {xs : Text} (h : Text.isBlank x = false) :
    startsLiteral (x :: xs) = (x != '$' && x != '<') := by
  simp [startsLiteral, Text.trimStart, h]

/-- The pattern's way to say that literal text begins: blanks, and then a
character that is none of `$`, `<` and blank. -/
theorem startsLiteral_iff {t : Text} :
    startsLiteral t = true ↔
      ∃ b x r, t = b ++ x :: r ∧ (∀ y ∈ b, Text.isBlank y = true) ∧
        Text.isBlank x = false ∧ x ≠ '$' ∧ x ≠ '<' := by
  induction t with
  | nil => simp [startsLiteral, Text.trimStart]
  | cons y ys ih =>
    cases hy : Text.isBlank y
    · rw [startsLiteral_cons_of_not_isBlank hy, Bool.and_eq_true, bne_iff_ne, bne_iff_ne]
      constructor
      · exact fun h => ⟨[], y, ys, rfl, by simp, hy, h⟩
      · rintro ⟨b, x, r, hb, hblank, hx, h⟩
        cases b with
        | nil =>
          obtain ⟨rfl, -⟩ := List.cons.inj hb
          exact h
        | cons z zs =>
          obtain ⟨rfl, -⟩ := List.cons.inj hb
          simp [hblank y] at hy
    · rw [startsLiteral_cons_of_isBlank hy, ih]
      constructor
      · rintro ⟨b, x, r, rfl, hblank, h⟩
        exact ⟨y :: b, x, r, rfl, by simpa [hy] using hblank, h⟩
      · rintro ⟨b, x, r, hb, hblank, hx, h⟩
        cases b with
        | nil =>
          obtain ⟨rfl, -⟩ := List.cons.inj hb
          simp [hx] at hy
        | cons z zs =>
          obtain ⟨rfl, rfl⟩ := List.cons.inj hb
          exact ⟨zs, x, r, rfl, fun w hw => hblank w (List.mem_cons_of_mem _ hw), hx, h⟩

/-- The pattern for literal text matches from a place on if a line begins there
and literal text does. -/
theorem hardcodedString_matches_iff {p : Cursor} :
    (∃ q, Catalog.hardcodedString.Matches p q) ↔
      Anchor.lineStart.holds p = true ∧ startsLiteral p.after = true := by
  have hseq : Catalog.hardcodedString =
      .seq (.seq (.seq (.assert .lineStart) (.many .blank false))
        (.single ⟨true, [.one '$', .one '<', .blank]⟩)) (.many (.noneOf "<") false) := rfl
  have hfirst : ∀ x, (⟨true, [.one '$', .one '<', .blank]⟩ : CharClass).contains x = true ↔
      Text.isBlank x = false ∧ x ≠ '$' ∧ x ≠ '<' := by
    intro x
    simp only [CharClass.contains, List.any_cons, List.any_nil, ClassItem.covers]
    grind
  simp only [hseq, Regex.matches_seq, Regex.matches_assert, Regex.matches_many,
    Regex.matches_single, Regex.contains_blank_iff, hfirst, startsLiteral_iff]
  constructor
  · rintro ⟨q, m₃, ⟨m₂, ⟨m₁, ⟨hline, rfl⟩, b, hb, hall⟩, x, hx, hok⟩, -⟩
    refine ⟨hline, b, x, m₃.after, ?_, hall, hok⟩
    rw [hb.ahead, hx.ahead]
    rfl
  · rintro ⟨hline, b, x, r, hp, hall, hok⟩
    have hb : p.Leads b ⟨b.reverse ++ p.before, x :: r⟩ := ⟨hp, rfl⟩
    have hx : Leads ⟨b.reverse ++ p.before, x :: r⟩ [x] ⟨x :: (b.reverse ++ p.before), r⟩ :=
      Leads.cons _ _ _
    -- what is behind the first character may match nothing
    exact ⟨_, _, ⟨_, ⟨p, ⟨hline, rfl⟩, b, hb, hall⟩, x, hx, hok⟩, [], Leads.refl _, by simp⟩

/-! ### The pattern and the lines -/

/-- Literal text begins at the start of a line behind a place. -/
def LiteralBehind (c : Cursor) : Prop :=
  ∃ p, c < p ∧ Anchor.lineStart.holds p = true ∧ startsLiteral p.after = true

theorem literalBehind_cons_iff {before xs : Text} {x : Char} :
    LiteralBehind ⟨before, x :: xs⟩ ↔
      (x = '\n' ∧ startsLiteral xs = true) ∨ LiteralBehind ⟨x :: before, xs⟩ := by
  have hline : Anchor.lineStart.holds ⟨x :: before, xs⟩ = true ↔ x = '\n' := by
    simp [Anchor.holds]
  constructor
  · rintro ⟨p, hp, hl, hs⟩
    rcases (cons_lt_iff.1 hp).eq_or_lt with rfl | hlt
    · exact .inl ⟨hline.1 hl, hs⟩
    · exact .inr ⟨p, hlt, hl, hs⟩
  · rintro (⟨hx, hs⟩ | ⟨p, hp, hl, hs⟩)
    · exact ⟨_, lt_cons before x xs, hline.2 hx, hs⟩
    · exact ⟨p, (lt_cons before x xs).trans hp, hl, hs⟩

theorem splitOn_ne_nil (p : Char → Bool) (t : Text) : t.splitOn p ≠ [] := by
  cases t with
  | nil => simp [Text.splitOn]
  | cons x xs =>
    rw [Text.splitOn]
    split
    · simp
    · split <;> simp

/-- The lines behind the first one are those that begin behind a place; the
first one begins at the place itself. -/
theorem literalBehind_iff (before t : Text) :
    (LiteralBehind ⟨before, t⟩ ↔ (t.splitOn (· = '\n')).tail.any startsLiteral = true) ∧
      (startsLiteral t = true ∨ LiteralBehind ⟨before, t⟩ ↔ hasLiteralLine t = true) := by
  induction t generalizing before with
  | nil =>
    have hno : ¬ LiteralBehind ⟨before, []⟩ := by
      rintro ⟨p, hp, -⟩
      exact hp.ne (nil_le_iff.1 hp.le).symm
    simp [hno, Text.splitOn, hasLiteralLine]
  | cons x xs ih =>
    obtain ⟨ihtail, ihall⟩ := ih (x :: before)
    rw [literalBehind_cons_iff]
    obtain ⟨line, rest, hlines⟩ := List.exists_cons_of_ne_nil (splitOn_ne_nil (· = '\n') xs)
    have hnl : Text.isBlank '\n' = true := by decide
    by_cases hx : x = '\n'
    · -- the line that ends here is empty, and all lines of the rest are behind it
      subst hx
      have hlines : Text.splitOn (· = '\n') ('\n' :: xs) = [] :: Text.splitOn (· = '\n') xs := rfl
      rw [hasLiteralLine, hlines, startsLiteral_cons_of_isBlank hnl]
      simp only [true_and, ihall]
      refine ⟨Iff.rfl, ?_⟩
      constructor
      · rintro (h | h)
        · exact ihall.1 (.inl h)
        · exact h
      · exact fun h => .inr h
    · -- the character belongs to the first line of the rest, and decides on it unless it is blank
      have hline : Text.splitOn (· = '\n') (x :: xs) = (x :: line) :: rest := by
        simp [Text.splitOn, hx, hlines]
      rw [hasLiteralLine, hline]
      simp only [hx, false_and, false_or]
      rw [hlines] at ihtail
      refine ⟨ihtail, ?_⟩
      rw [hasLiteralLine, hlines] at ihall
      simp only [List.any_cons, Bool.or_eq_true] at ihall ⊢
      cases hb : Text.isBlank x
      · rw [startsLiteral_cons_of_not_isBlank hb, startsLiteral_cons_of_not_isBlank hb, ihtail]
        rfl
      · rw [startsLiteral_cons_of_isBlank hb, startsLiteral_cons_of_isBlank hb, ihall]

/-- **The pattern for literal text finds the lines that begin with it.** -/
theorem hardcodedString_isMatch (t : Text) :
    Catalog.hardcodedString.isMatch t = hasLiteralLine t := by
  rw [Bool.eq_iff_iff, Regex.isMatch_iff, ← (literalBehind_iff [] t).2]
  constructor
  · rintro ⟨p, q, rfl, hm⟩
    obtain ⟨hline, hlit⟩ := hardcodedString_matches_iff.1 ⟨q, hm⟩
    rcases p.start_le.eq_or_lt with hp | hp
    · left
      rwa [← hp] at hlit
    · exact .inr ⟨p, hp, hline, hlit⟩
  · rintro (hlit | ⟨p, hp, hline, hlit⟩)
    · obtain ⟨q, hq⟩ := hardcodedString_matches_iff (p := t.start).2 ⟨rfl, hlit⟩
      exact ⟨t.start, q, rfl, hq⟩
    · obtain ⟨q, hq⟩ := hardcodedString_matches_iff.2 ⟨hline, hlit⟩
      exact ⟨p, q, text_eq_of_le hp.le, hq⟩

/-! ### Stretches between tags -/

/-- From a place on no tag begins before `d`, which is a tag start or the end of
the text. -/
structure Stretch (c d : Cursor) : Prop where
  le : c ≤ d
  ends : d.after = [] ∨ isTagStart d.after = true
  free : ∀ m, c ≤ m → m < d → isTagStart m.after = false

theorem Stretch.of_tagFrom {c d : Cursor} (h : tagFrom c.before c.after = some d) :
    Stretch c d := by
  obtain ⟨hle, htag, hmin⟩ := tagFrom_eq_some_iff.1 h
  refine ⟨hle, .inr htag, fun m hm hlt => ?_⟩
  by_contra hne
  exact absurd (hmin m hm (by simpa using hne)) hlt.not_ge

/-- The part of a stretch that is looked at: what is before its first `<`
without a space behind. -/
def lookedAt : Text → Text
  | [] => []
  | x :: xs => if x = '<' && xs.head? != some ' ' then [] else x :: lookedAt xs

/-- The text run behind a tag is the part of the stretch that is looked at. -/
theorem leads_textEnd {c d : Cursor} {t : Text} (h : c.Leads t d)
    (hd : d.after = [] ∨ isTagStart d.after = true) :
    c.Leads (lookedAt t) (textEnd c.before c.after) := by
  induction t generalizing c with
  | nil =>
    have hruns : endsRun c.after = true := by
      rw [h.ahead, List.nil_append]
      rcases hd with hd | hd
      · rw [hd]
        rfl
      · exact endsRun_of_isTagStart hd
    rw [textEnd_eq_iff.2 ⟨le_rfl, hruns, fun m hm _ => hm⟩]
    exact Leads.refl c
  | cons x xs ih =>
    obtain ⟨before, after⟩ := c
    obtain rfl : after = x :: (xs ++ d.after) := h.ahead
    have hrest : Leads ⟨x :: before, xs ++ d.after⟩ xs d := ⟨rfl, by simpa using h.behind⟩
    -- a space is behind the first character in the stretch if it is in the text
    have hspace : (xs ++ d.after).head? = some ' ' ↔ xs.head? = some ' ' := by
      cases xs with
      | cons y ys => rfl
      | nil =>
        rcases hd with hd | hd
        · simp [hd]
        · obtain ⟨y, ys, hy, -⟩ := isTagStart_iff.1 hd
          simp [hy]
    have hcond : (x = '<' && (xs ++ d.after).head? != some ' ') =
        (x = '<' && xs.head? != some ' ') := by
      simp only [bne, Bool.beq_eq_decide_eq, hspace]
    rw [textEnd, lookedAt, hcond]
    split
    · exact Leads.refl _
    · exact (Leads.cons _ _ _).trans (ih hrest)

/-! ### Which stretches are looked at -/

section Reading

variable {ignored : List Text} {c : Cursor} {segments : List Segment} {f : Option ScanError}

/-- No other tag or ignored element ends in the stretch behind one. -/
theorem Reading.eq_of_stop_mem_stretch (h : Reading ignored c segments f) {s t : Segment}
    (hs : s ∈ segments) (ht : t ∈ segments) (hse : s.isElement = true) (hte : t.isElement = true)
    {d : Cursor} (hd : Stretch s.stop d) (hlo : s.stop.offset ≤ t.stop.offset)
    (hhi : t.stop.offset < d.offset) : s = t := by
  obtain ⟨hslt, -⟩ := h.of_isElement hs hse
  obtain ⟨htlt, htag⟩ := h.of_isElement ht hte
  have hslt := offset_lt_of_lt hslt
  have htlt := offset_lt_of_lt htlt
  by_contra hne
  rcases h.apart hs ht hne with hst | hts
  · -- the other one begins at a tag start, which is not in the stretch
    rcases lt_or_le_of_le hd.le hst with hin | hout
    · simp [hd.free _ hst hin] at htag
    · have := offset_le_of_le hout
      omega
  · have := offset_le_of_le hts
    omega

end Reading

namespace Segment

/-- Whether a segment is a tag or comment. -/
def isTag : Segment → Bool
  | .tag _ _ => true
  | .ignored _ _ _ | .text _ _ => false

end Segment

/-- **Literal text behind a tag or an ignored element is reported if and only if
it stands behind a tag, and a line begins with it in the part of the stretch
that is looked at.** -/
theorem literal_reported_iff {text : Text} (hread : (lex scriptTags text).failure = none)
    {s : Segment} (hs : s ∈ (lex scriptTags text).segments) (he : s.isElement = true)
    {d : Cursor} (hd : Stretch s.stop d) :
    ∃ found, hardcodedStrings text = .ok found ∧
      ((∃ v ∈ found, s.stop.offset ≤ v.offset ∧ v.offset < d.offset) ↔
        s.isTag = true ∧ hasLiteralLine (lookedAt (s.stop.upTo d)) = true) := by
  have h := reading_lex scriptTags text
  have hrun := (leads_textEnd (leads_upTo hd.le) hd.ends).upTo_eq
  obtain ⟨found, hfound⟩ :=
    exists_violationsAt (@upTo_ne_nil_of_mem_literalRuns (lex scriptTags text).segments)
  refine ⟨found, by rw [hardcodedStrings_eq, hread]; exact hfound, ?_⟩
  constructor
  · rintro ⟨v, hv, hlo, hhi⟩
    obtain ⟨⟨a, b⟩, hab, hmarks⟩ := (mem_violationsAt_iff hfound).1 hv
    obtain ⟨htext, hlit⟩ := mem_literalRuns_iff.1 hab
    obtain ⟨start, ht, rfl⟩ := h.mem_text_iff.1 htext
    rw [hmarks.offset_eq] at hlo hhi
    -- the run is behind a tag that ends in the stretch, and only the segment itself does
    obtain rfl := h.eq_of_stop_mem_stretch hs ht he rfl hd hlo hhi
    rw [hardcodedString_isMatch] at hlit
    exact ⟨rfl, hrun ▸ hlit⟩
  · rintro ⟨htag, hlit⟩
    cases s with
    | ignored | text => cases htag
    | tag start stop =>
      have hmatch : Catalog.hardcodedString.isMatch (stop.upTo (textEnd stop.before stop.after)) =
          true := by
        rw [hardcodedString_isMatch]
        exact hrun ▸ hlit
      obtain ⟨v, hv, hmarks⟩ := exists_violation_of_mem hfound
        (mem_literalRuns_iff.2 ⟨h.mem_text_iff.2 ⟨start, hs, rfl⟩, hmatch⟩)
      refine ⟨v, hv, hmarks.offset_eq.ge, ?_⟩
      rw [hmarks.offset_eq]
      refine offset_lt_of_lt (lt_of_le_of_ne hd.le ?_)
      rintro rfl
      rw [Segment.stop, (Leads.refl stop).upTo_eq] at hlit
      cases hlit

/-- A `<` with a space behind does not end what is looked at. -/
theorem literal_reported_iff_of_spaced :
    ∃ found, hardcodedStrings "<p>\n 1 < 2</p>".toList = .ok found ∧
      ∃ v ∈ found, 3 ≤ v.offset ∧ v.offset < 10 := by
  have hread : (lex scriptTags "<p>\n 1 < 2</p>".toList).failure = none := by decide +kernel
  have hs : .tag ⟨[], "<p>\n 1 < 2</p>".toList⟩ ⟨"<p>".toList.reverse, "\n 1 < 2</p>".toList⟩ ∈
      (lex scriptTags "<p>\n 1 < 2</p>".toList).segments := by decide +kernel
  have hd : Stretch ⟨"<p>".toList.reverse, "\n 1 < 2</p>".toList⟩
      ⟨"<p>\n 1 < 2".toList.reverse, "</p>".toList⟩ := Stretch.of_tagFrom (by decide)
  obtain ⟨found, hok, hiff⟩ := literal_reported_iff hread hs rfl hd
  exact ⟨found, hok, hiff.2 ⟨rfl, by decide⟩⟩

/-- Literal text goes unreported behind an ignored element, and behind a `<` at
the end of a line. -/
theorem literal_not_reported :
    (∃ s ∈ (lex scriptTags "<script>x</script>Hello<br>".toList).segments, ∃ d,
      (lex scriptTags "<script>x</script>Hello<br>".toList).failure = none ∧
      s.isElement = true ∧ Stretch s.stop d ∧ s.stop.upTo d = "Hello".toList ∧
      hasLiteralLine (s.stop.upTo d) = true ∧
      hardcodedStrings "<script>x</script>Hello<br>".toList = .ok []) ∧
    (∃ s ∈ (lex scriptTags "<p><\nHello</p>".toList).segments, ∃ d,
      (lex scriptTags "<p><\nHello</p>".toList).failure = none ∧
      s.isElement = true ∧ Stretch s.stop d ∧ s.stop.upTo d = "<\nHello".toList ∧
      hasLiteralLine (s.stop.upTo d) = true ∧
      hardcodedStrings "<p><\nHello</p>".toList = .ok []) := by
  refine ⟨⟨.ignored "script".toList ⟨[], "<script>x</script>Hello<br>".toList⟩
    ⟨"<script>x</script>".toList.reverse, "Hello<br>".toList⟩, by decide +kernel,
    ⟨"<script>x</script>Hello".toList.reverse, "<br>".toList⟩, by decide +kernel, rfl,
    Stretch.of_tagFrom (by decide), by decide, by decide, by decide +kernel⟩, ?_⟩
  exact ⟨.tag ⟨[], "<p><\nHello</p>".toList⟩ ⟨"<p>".toList.reverse, "<\nHello</p>".toList⟩,
    by decide +kernel, ⟨"<p><\nHello".toList.reverse, "</p>".toList⟩, by decide +kernel, rfl,
    Stretch.of_tagFrom (by decide), by decide, by decide, by decide +kernel⟩

end CartridgeAudit.Markup
