/-
CartridgeAudit/Proofs/Markup/Lexer.lean

The lexer as a machine over byte offsets.

Templates are read by recursion on places (`lexFrom`).  The machine here does
the same by small turns, with all that such a machine can get wrong: its cursor
is a byte offset that may fall inside a character, it counts open tags in a
number that may run below zero, and it cuts the text at offsets.  A turn that
goes wrong in one of these ways is *stuck*.

A lexer is in one of five states.  Between tags it looks for the next tag start,
or, directly behind a tag, takes the text run.  In a tag it looks at one byte;
an expression, a comment and an ignored element are passed over in one turn.
After a failure it is set behind the end of the text.

Main results: the machine yields the segments of the lexing by offsets, with
its failure if there is one, and ends between tags (`iterates_lex`), and it yields
nothing else (`iterates_new_iff`); no lexer that it comes to is stuck
(`not_stuck`); and a tag that it enters is a step of the reading
(`Reading.enters`).
-/
import CartridgeAudit.Proofs.Markup.Reading
import CartridgeAudit.Proofs.Markup.TagGrammar
import Mathlib.Computability.StateTransition

namespace CartridgeAudit

/-- The text between two byte offsets, if both are places and in order. -/
def Text.slice? (t : Text) (start stop : Nat) : Option Text :=
  match t.seek start, t.seek stop with
  | some a, some b =>
      if a.offset = start && b.offset = stop && start ≤ stop then some (a.upTo b) else none
  | _, _ => none

namespace Markup

open Cursor StateTransition

/-! ### Lexers -/

/-- What a lexer is in. -/
inductive LexState
  | text
  | tag
  | expression
  | comment
  | ignoredBody
  deriving DecidableEq

/-- A segment by byte offsets. -/
inductive Piece
  | tag (start stop : Nat)
  | ignored (name : Text) (start stop : Nat)
  | text (start : Nat) (content : Text)
  deriving DecidableEq

/-- A lexer: the text it reads, the elements whose content it skips, its state
and cursor, where the current tag begins, how many tags are open there, the
ignored element it is in, and whether a tag ended just now. -/
structure Lexer where
  source : Text
  ignored : List Text
  state : LexState
  cursor : Nat
  tagStart : Nat
  depth : Nat
  ignoredTag : Text
  afterTag : Bool
  deriving DecidableEq

/-- Why a turn cannot be made. -/
inductive Fault
  | depthBelowZero
  | cutInsideCharacter
  deriving DecidableEq

/-- What one turn of a lexer comes to. -/
inductive Turn
  | again (l : Lexer)
  | yields (p : Piece) (l : Lexer)
  | ends
  | fails (e : AuditError)
  | stuck (fault : Fault)
  deriving DecidableEq

/-- The end of the text run from a byte offset on: the next `<` that is not
followed by a space, or the end of the text. -/
def runEnd (text : Text) (start : Nat) : Nat :=
  ((List.range' start (text.byteLength - start)).find? fun i =>
    text.byteAt? i == some '<'.toUInt8 && text.byteAt? (i + 1) != some ' '.toUInt8).getD
      text.byteLength

namespace Lexer

/-- The lexer at the start of a text. -/
def new (source : Text) (ignored : List Text) : Lexer where
  source := source
  ignored := ignored
  state := .text
  cursor := 0
  tagStart := 0
  depth := 0
  ignoredTag := []
  afterTag := false

/-- Enters the tag whose name begins at a byte offset. -/
def enterTag (l : Lexer) (name : Nat) : Lexer :=
  let entered := { l with tagStart := name - 1, cursor := name, depth := 1 }
  if (nameAt l.source name [commentName]).isSome then { entered with state := .comment }
  else match nameAt l.source name l.ignored with
    | some element => { entered with state := .ignoredBody, ignoredTag := element }
    | none => { entered with state := .tag }

/-- Yields the current tag, which ends at a byte offset. -/
def closeTag (l : Lexer) (stop : Nat) : Turn :=
  .yields (.tag l.tagStart stop) { l with cursor := stop, state := .text, afterTag := true }

/-- One turn inside a tag, at a byte. -/
def tagTurn (l : Lexer) (b : UInt8) : Turn :=
  if b = '>'.toUInt8 then
    match l.depth with
    | 0 => .stuck .depthBelowZero
    | 1 => closeTag { l with depth := 0 } (l.cursor + 1)
    | inner + 2 => .again { l with cursor := l.cursor + 1, depth := inner + 1 }
  else if b = '<'.toUInt8 then .again { l with cursor := l.cursor + 1, depth := l.depth + 1 }
  else if b = '\x7b'.toUInt8 then .again { l with state := .expression }
  else .again { l with cursor := l.cursor + 1 }

/-- One turn. -/
def turn (l : Lexer) : Turn :=
  match l.state with
  | .text =>
      if l.afterTag then
        let stop := runEnd l.source l.cursor
        match l.source.slice? l.cursor stop with
        | none => .stuck .cutInsideCharacter
        | some content =>
            .yields (.text l.cursor content) { l with cursor := stop, afterTag := false }
      else match nextTagStart l.source l.cursor with
        | none => .ends
        | some start => .again (l.enterTag (start + 1))
  | .ignoredBody =>
      match positionAfter l.source l.cursor [closingTag l.ignoredTag, "/>".toList] with
      | .error e => .fails (.scan e)
      | .ok stop =>
          .yields (.ignored l.ignoredTag l.tagStart stop) { l with cursor := stop, state := .text }
  | .comment =>
      match positionAfter l.source l.cursor [commentEnd] with
      | .error e => .fails (.scan e)
      | .ok stop => l.closeTag stop
  | .expression =>
      match Script.scopeEnd l.source l.cursor with
      | .error e => .fails e
      | .ok stop => .again { l with cursor := stop, state := .tag }
  | .tag =>
      match l.source.byteAt? l.cursor with
      | none => .fails (.scan (.unterminatedTag (l.tagStart + 1)))
      | some b => l.tagTurn b

/-- A lexer that has failed stands behind the end of the text. -/
def halted (l : Lexer) : Lexer :=
  { l with state := .text, afterTag := false, cursor := l.source.byteLength + 1 }

/-- The lexer after one turn, if it goes on. -/
def step (l : Lexer) : Option Lexer :=
  match l.turn with
  | .again l' | .yields _ l' => some l'
  | .fails _ => some l.halted
  | .ends | .stuck _ => none

end Lexer

/-- Iterating over a lexer yields pieces and errors, and ends with another
lexer. -/
inductive Iterates : Lexer → List (Except AuditError Piece) → Lexer → Prop
  | ends {l : Lexer} : l.turn = .ends → Iterates l [] l
  | again {l l' last : Lexer} {items : List (Except AuditError Piece)} :
      l.turn = .again l' → Iterates l' items last → Iterates l items last
  | yields {l l' last : Lexer} {p : Piece} {items : List (Except AuditError Piece)} :
      l.turn = .yields p l' → Iterates l' items last → Iterates l (.ok p :: items) last
  | fails {l last : Lexer} {e : AuditError} {items : List (Except AuditError Piece)} :
      l.turn = .fails e → Iterates l.halted items last → Iterates l (.error e :: items) last

/-! ### Lookups at a place

By offsets the machine finds what scanners find by places. -/

theorem nextTagStart_offset (c : Cursor) :
    nextTagStart c.text c.offset = (tagFrom c.before c.after).map (·.offset) := by
  rw [nextTagStart, Text.seek_offset]
  rfl

theorem nameAt_offset (c : Cursor) (names : List Text) :
    nameAt c.text c.offset names = names.find? c.startsWith := by
  rw [nameAt, Text.seek_offset]
  exact if_pos rfl

theorem positionAfter_offset (c : Cursor) (targets : List Text) :
    positionAfter c.text c.offset targets =
      match endOf targets c with
      | some d => .ok d.offset
      | none => .error (.missingSequence targets c.offset) := by
  rw [positionAfter, Text.seek_offset]
  rfl

theorem slice?_of_le {c d : Cursor} (h : c ≤ d) :
    Text.slice? c.text c.offset d.offset = some (c.upTo d) := by
  have hc := Text.seek_offset c
  have hd := Text.seek_offset d
  rw [text_eq_of_le h] at hd
  have ho := offset_le_of_le h
  simp [Text.slice?, hc, hd, ho]

/-- By bytes, a text run can end where it can end by characters. -/
theorem runStop_iff {t : Text} {i : Nat} :
    (t.byteAt? i == some '<'.toUInt8 && t.byteAt? (i + 1) != some ' '.toUInt8) = true ↔
      ∃ m : Cursor, m.text = t ∧ m.offset = i ∧ m.after ≠ [] ∧ endsRun m.after = true := by
  -- behind a `<` the byte of a space is a space
  have hspace : ∀ before xs : Text,
      Text.byteAt? (Cursor.text ⟨before, '<' :: xs⟩) (offset ⟨before, '<' :: xs⟩ + 1) =
        some ' '.toUInt8 ↔ xs.head? = some ' ' := by
    intro before xs
    have ht := (Leads.cons before '<' xs).text_eq
    rw [← offset_ascii_cons (by decide), ← ht, Text.byteAt?_eq_ascii_iff_cursor (by decide)]
    constructor
    · rintro ⟨m, hm, ho, hx⟩
      rw [eq_of_offset_eq hm ho] at hx
      exact hx
    · exact fun hx => ⟨_, rfl, rfl, hx⟩
  rw [Bool.and_eq_true, beq_iff_eq, bne_iff_ne, Text.byteAt?_eq_ascii_iff_cursor (by decide)]
  constructor
  · rintro ⟨⟨⟨before, after⟩, rfl, rfl, hm⟩, hne⟩
    obtain ⟨xs, rfl⟩ := List.head?_eq_some_iff.1 hm
    rw [Ne, hspace] at hne
    exact ⟨_, rfl, rfl, by simp, by simpa [endsRun] using hne⟩
  · rintro ⟨⟨before, after⟩, rfl, rfl, hne, hm⟩
    cases after with
    | nil => exact absurd rfl hne
    | cons x xs =>
      simp only [endsRun, Bool.and_eq_true, decide_eq_true_eq, bne_iff_ne] at hm
      obtain ⟨rfl, hx⟩ := hm
      exact ⟨⟨_, rfl, rfl, rfl⟩, fun h => hx ((hspace before xs).1 h)⟩

theorem runEnd_offset (c : Cursor) :
    runEnd c.text c.offset = (textEnd c.before c.after).offset := by
  obtain ⟨hle, hd, hmin⟩ := textEnd_eq_iff (c := c).1 rfl
  generalize textEnd c.before c.after = d at hle hd hmin
  have ht := text_eq_of_le hle
  have hlen := d.offset_le_byteLength
  rw [ht] at hlen
  have hbefore : ∀ j, c.offset ≤ j → j < d.offset →
      (!(Text.byteAt? c.text j == some '<'.toUInt8 &&
        Text.byteAt? c.text (j + 1) != some ' '.toUInt8)) = true := by
    intro j hj hjd
    rw [Bool.not_eq_true', ← Bool.not_eq_true, runStop_iff]
    rintro ⟨m, hm, rfl, -, hend⟩
    have := offset_le_of_le (hmin m ((le_iff_offset_le hm.symm).2 hj) hend)
    omega
  rw [runEnd]
  by_cases hnil : d.after = []
  · -- the run goes to the end of the text, and no byte on the way ends it
    have ho : d.offset = Text.byteLength c.text := by
      rw [← ht]
      simp [offset, Cursor.text, hnil]
    rw [List.find?_range'_eq_none.2, ho]
    · rfl
    · intro j hj hjd
      exact hbefore j hj (by omega)
  · rw [List.find?_range'_eq_some.2 ⟨runStop_iff.2 ⟨d, ht, rfl, hnil, hd⟩, ?_, hbefore⟩]
    · rfl
    · have hlt : d.offset < Text.byteLength d.text := by
        obtain ⟨x, xs, hx⟩ := List.exists_cons_of_ne_nil hnil
        have := x.utf8Size_pos
        simp only [offset, Cursor.text, hx, Text.byteLength_append, Text.byteLength_reverse,
          Text.byteLength_cons]
        omega
      rw [ht] at hlt
      rw [List.mem_range'_1]
      have := offset_le_of_le hle
      omega

/-! ### Turns between tags -/

/-- The lexer stands between tags at a place, directly behind a tag or not. -/
structure Lexer.Between (l : Lexer) (ignored : List Text) (c : Cursor) (afterTag : Bool) :
    Prop where
  source_eq : l.source = c.text
  ignored_eq : l.ignored = ignored
  state_eq : l.state = .text
  cursor_eq : l.cursor = c.offset
  afterTag_eq : l.afterTag = afterTag

namespace Lexer

variable {l : Lexer} {ignored : List Text} {c : Cursor}

theorem between_new (text : Text) (ignored : List Text) :
    (new text ignored).Between ignored text.start false := ⟨rfl, rfl, rfl, rfl, rfl⟩

/-- Directly behind a tag the lexer takes the text run. -/
theorem turn_of_afterTag (h : l.Between ignored c true) :
    ∃ l', l.turn = .yields (.text c.offset (c.upTo (textEnd c.before c.after))) l' ∧
      l'.Between ignored (textEnd c.before c.after) false := by
  have ht := text_eq_of_le (le_textEnd c)
  refine ⟨{ l with cursor := (textEnd c.before c.after).offset, afterTag := false }, ?_, ?_⟩
  · simp only [turn, h.state_eq, h.afterTag_eq, if_true, h.source_eq, h.cursor_eq, runEnd_offset,
      slice?_of_le (le_textEnd c)]
  · exact ⟨h.source_eq.trans ht.symm, h.ignored_eq, h.state_eq, rfl, rfl⟩

theorem turn_of_tagFrom_eq_none (h : l.Between ignored c false)
    (hs : tagFrom c.before c.after = none) : l.turn = .ends := by
  simp [turn, h.state_eq, h.afterTag_eq, h.source_eq, h.cursor_eq, nextTagStart_offset, hs]

theorem turn_of_tagFrom_eq_some {start : Cursor} (h : l.Between ignored c false)
    (hs : tagFrom c.before c.after = some start) :
    l.turn = .again (l.enterTag (start.offset + 1)) := by
  simp [turn, h.state_eq, h.afterTag_eq, h.source_eq, h.cursor_eq, nextTagStart_offset, hs]

theorem enterTag_ignored (l : Lexer) (name : Nat) : (l.enterTag name).ignored = l.ignored := by
  unfold enterTag
  dsimp only
  split
  · rfl
  · split <;> rfl

/-- After a failure nothing more is yielded. -/
theorem turn_halted (l : Lexer) : l.halted.turn = .ends := by
  have hnone : l.source.seek (l.source.byteLength + 1) = none := by
    cases h : l.source.seek (l.source.byteLength + 1) with
    | none => rfl
    | some d =>
      obtain ⟨ht, ho, -⟩ := Text.seek_eq_some h
      have hlen := d.offset_le_byteLength
      rw [ht] at hlen
      omega
  simp [turn, halted, nextTagStart, hnone]

end Lexer

/-! ### Turns inside a tag -/

/-- Turns that yield nothing. -/
def Silent : Lexer → Lexer → Prop := Relation.ReflTransGen fun l l' => l.turn = .again l'

/-- After silent turns the lexer yields a piece and is between tags again, or it
fails. -/
def Yields (l : Lexer) (piece : Cursor → Piece) (afterTag : Bool) :
    Except ScanError Cursor → Prop
  | .ok d => ∃ l₁ l₂, Silent l l₁ ∧ l₁.turn = .yields (piece d) l₂ ∧
      l₂.Between l.ignored d afterTag
  | .error e => ∃ l₁, Silent l l₁ ∧ l₁.turn = .fails (.scan e)

theorem Yields.of_silent {l : Lexer} (l' : Lexer) {piece : Cursor → Piece} {afterTag : Bool}
    {r : Except ScanError Cursor} (hs : Silent l l') (hi : l'.ignored = l.ignored)
    (h : Yields l' piece afterTag r) : Yields l piece afterTag r := by
  cases r with
  | ok d =>
    obtain ⟨l₁, l₂, hs', hy, hb⟩ := h
    exact ⟨l₁, l₂, hs.trans hs', hy, hi ▸ hb⟩
  | error e =>
    obtain ⟨l₁, hs', hf⟩ := h
    exact ⟨l₁, hs.trans hs', hf⟩

/-- The lexer reads a tag at a place, with so many inner tags open. -/
structure Lexer.InTag (l : Lexer) (c : Cursor) (inner : Nat) : Prop where
  source_eq : l.source = c.text
  state_eq : l.state = .tag
  cursor_eq : l.cursor = c.offset
  depth_eq : l.depth = inner + 1

theorem Lexer.turn_of_inTag {l : Lexer} {c : Cursor} {inner : Nat} {b : UInt8}
    (h : l.InTag c inner) (hb : Text.byteAt? c.text c.offset = some b) : l.turn = l.tagTurn b := by
  simp only [turn, h.state_eq, h.source_eq, h.cursor_eq, hb]

/-- A stretch of plain bytes is passed over silently. -/
theorem silent_of_plain {l : Lexer} (hstate : l.state = .tag) {k : Nat}
    (h : ∀ j, l.cursor ≤ j → j < l.cursor + k → Plain l.source j) :
    Silent l { l with cursor := l.cursor + k } := by
  induction k with
  | zero => exact .refl
  | succ k ih =>
    have hk := h (l.cursor + k) (by omega) (by omega)
    obtain ⟨b, hb, hlt, hgt, hbrace⟩ := hk
    refine (ih fun j hj hjk => h j hj (by omega)).tail ?_
    simp only [Lexer.turn, hstate, hb, Lexer.tagTurn, if_neg hlt, if_neg hgt, if_neg hbrace]
    rfl

/-- **In a tag the machine does what the reader does**: with one more in its
count than there are inner tags open. -/
theorem yields_of_inTag {inner : Nat} {c : Cursor} {l : Lexer} (h : l.InTag c inner) :
    Yields l (fun d => .tag l.tagStart d.offset) true
      (closeFrom (l.tagStart + 1) (.tag inner) c.before c.after) := by
  induction inner, c using tagReading_induction generalizing l with
  | finish inner before =>
    refine ⟨l, .refl, ?_⟩
    simp only [Lexer.turn, h.state_eq, h.source_eq, h.cursor_eq, Text.byteAt?_at_end]
  | close before xs =>
    have hb := Text.byteAt?_offset_ascii (a := '>') (by decide) before xs
    have ht := (Leads.cons before '>' xs).text_eq
    have ho := offset_ascii_cons (a := '>') (by decide) before xs
    refine ⟨l, { l with cursor := l.cursor + 1, depth := 0, state := .text, afterTag := true },
      .refl, ?_, h.source_eq.trans ht.symm, rfl, rfl, ?_, rfl⟩
    · rw [Lexer.turn_of_inTag h hb]
      simp only [Lexer.tagTurn, h.depth_eq, if_true, ho, ← h.cursor_eq]
      rfl
    · exact (congrArg (· + 1) h.cursor_eq).trans ho.symm
  | closeInner inner before xs ih =>
    have hb := Text.byteAt?_offset_ascii (a := '>') (by decide) before xs
    have ht := (Leads.cons before '>' xs).text_eq
    have ho := offset_ascii_cons (a := '>') (by decide) before xs
    refine Yields.of_silent { l with cursor := l.cursor + 1, depth := inner + 1 }
      (.single ?_) rfl (ih ⟨h.source_eq.trans ht.symm, h.state_eq, ?_, rfl⟩)
    · rw [Lexer.turn_of_inTag h hb]
      simp only [Lexer.tagTurn, h.depth_eq, if_true]
    · exact (congrArg (· + 1) h.cursor_eq).trans ho.symm
  | openInner inner before xs ih =>
    have hb := Text.byteAt?_offset_ascii (a := '<') (by decide) before xs
    have ht := (Leads.cons before '<' xs).text_eq
    have ho := offset_ascii_cons (a := '<') (by decide) before xs
    rw [closeFrom_tag_open]
    refine Yields.of_silent { l with cursor := l.cursor + 1, depth := l.depth + 1 }
      (.single ?_) rfl (ih ⟨h.source_eq.trans ht.symm, h.state_eq, ?_, ?_⟩)
    · rw [Lexer.turn_of_inTag h hb]
      rfl
    · exact (congrArg (· + 1) h.cursor_eq).trans ho.symm
    · exact congrArg (· + 1) h.depth_eq
  | expression inner before xs d hd ih =>
    have hb := Text.byteAt?_offset_ascii (a := '\x7b') (by decide) before xs
    have ht := text_eq_of_le ((lt_cons before _ xs).trans (lt_of_closeScope hd)).le
    have hend := scopeEnd_brace before xs
    rw [hd] at hend
    rw [closeFrom_tag_brace, hd]
    -- one turn into the expression, one over it
    refine Yields.of_silent { l with cursor := d.offset }
      ((Relation.ReflTransGen.single (b := { l with state := .expression }) ?_).tail ?_) rfl
      (ih ⟨h.source_eq.trans ht.symm, h.state_eq, rfl, h.depth_eq⟩)
    · rw [Lexer.turn_of_inTag h hb]
      rfl
    · simp only [Lexer.turn, h.source_eq, h.cursor_eq, hend, h.state_eq]
  | unclosed inner before xs hd =>
    have hb := Text.byteAt?_offset_ascii (a := '\x7b') (by decide) before xs
    have hend := scopeEnd_brace before xs
    rw [hd] at hend
    rw [closeFrom_tag_brace, hd]
    refine ⟨{ l with state := .expression }, .single ?_, ?_⟩
    · rw [Lexer.turn_of_inTag h hb]
      rfl
    · simp only [Lexer.turn, h.source_eq, h.cursor_eq, hend]
  | other inner before x xs hx ih =>
    have ht := (Leads.cons before x xs).text_eq
    have ho := (Leads.cons before x xs).offset_eq
    rw [closeFrom_tag_other _ _ _ _ hx]
    refine Yields.of_silent _ (silent_of_plain h.state_eq (k := x.utf8Size) ?_) rfl
      (ih ⟨h.source_eq.trans ht.symm, h.state_eq, ?_, h.depth_eq⟩)
    · intro j hj hjx
      rw [h.source_eq]
      rw [h.cursor_eq] at hj hjx
      exact plain_of_isMark_eq_false hx hj (by simpa [ho] using hjx)
    · simp [h.cursor_eq, ho]

/-! ### From tag to tag -/

/-- The name of a tag begins one byte behind its `<`. -/
theorem offset_next_of_isTagStart {start : Cursor} (h : isTagStart start.after = true) :
    start.next.offset = start.offset + 1 := by
  obtain ⟨x, xs, hs, hn, -⟩ := next_eq_of_isTagStart h
  rw [hn, hs]
  exact offset_ascii_cons (by decide) _ _

theorem positionAfter_closeIgnored (element : Text) (c : Cursor) :
    positionAfter c.text c.offset [closingTag element, "/>".toList] =
      (closeIgnored element c).map (·.offset) := by
  rw [positionAfter_offset, closeIgnored]
  cases endOf [closingTag element, "/>".toList] c <;> rfl

theorem positionAfter_closeComment (c : Cursor) :
    positionAfter c.text c.offset [commentEnd] = (closeComment c).map (·.offset) := by
  rw [positionAfter_offset, closeComment]
  cases endOf [commentEnd] c <;> rfl

/-- A comment is passed over in one turn. -/
theorem yields_of_comment {l : Lexer} {c : Cursor} (hstate : l.state = .comment)
    (hsource : l.source = c.text) (hcursor : l.cursor = c.offset) :
    Yields l (fun d => .tag l.tagStart d.offset) true (closeComment c) := by
  have hpos := positionAfter_closeComment c
  cases hc : closeComment c with
  | ok d =>
    rw [hc] at hpos
    have ht := text_eq_of_le (le_of_closeComment hc)
    refine ⟨l, { l with cursor := d.offset, state := .text, afterTag := true }, .refl, ?_,
      hsource.trans ht.symm, rfl, rfl, rfl, rfl⟩
    simp only [Lexer.turn, hstate, hsource, hcursor, hpos, Except.map, Lexer.closeTag]
  | error e =>
    rw [hc] at hpos
    refine ⟨l, .refl, ?_⟩
    simp only [Lexer.turn, hstate, hsource, hcursor, hpos, Except.map]

/-- An ignored element is passed over in one turn. -/
theorem yields_of_ignoredBody {l : Lexer} {c : Cursor} (hstate : l.state = .ignoredBody)
    (hsource : l.source = c.text) (hcursor : l.cursor = c.offset) (hafter : l.afterTag = false) :
    Yields l (fun d => .ignored l.ignoredTag l.tagStart d.offset) false
      (closeIgnored l.ignoredTag c) := by
  have hpos := positionAfter_closeIgnored l.ignoredTag c
  cases hc : closeIgnored l.ignoredTag c with
  | ok d =>
    rw [hc] at hpos
    have ht := text_eq_of_le (le_of_closeIgnored hc)
    refine ⟨l, { l with cursor := d.offset, state := .text }, .refl, ?_,
      hsource.trans ht.symm, rfl, rfl, rfl, hafter⟩
    simp only [Lexer.turn, hstate, hsource, hcursor, hpos, Except.map]
  | error e =>
    rw [hc] at hpos
    refine ⟨l, .refl, ?_⟩
    simp only [Lexer.turn, hstate, hsource, hcursor, hpos, Except.map]

section Enter

variable {l : Lexer} {ignored : List Text} {c start : Cursor}

/-- The lexer that has entered the tag at `start`. -/
theorem enterTag_eq (h : l.Between ignored c false) (hs : tagFrom c.before c.after = some start) :
    l.source = start.next.text ∧
      l.enterTag (start.offset + 1) =
        let entered := { l with
          tagStart := start.offset, cursor := start.next.offset, depth := 1 }
        if start.next.startsWith commentName then { entered with state := .comment }
        else match ignored.find? start.next.startsWith with
          | some element => { entered with state := .ignoredBody, ignoredTag := element }
          | none => { entered with state := .tag } := by
  obtain ⟨hle, htag, -⟩ := tagFrom_eq_some_iff.1 hs
  have ht : l.source = start.next.text := by
    rw [text_next, text_eq_of_le hle, h.source_eq]
  refine ⟨ht, ?_⟩
  have ho := offset_next_of_isTagStart htag
  have hcomment : (nameAt start.next.text start.next.offset [commentName]).isSome =
      start.next.startsWith commentName := by
    rw [nameAt_offset]
    cases hc : start.next.startsWith commentName <;> simp [hc]
  rw [Lexer.enterTag, ht, ← ho, hcomment, h.ignored_eq, nameAt_offset]
  simp only [ho, Nat.add_sub_cancel]

/-- In the tag that it has entered, the machine does what one step of the
reading does. -/
theorem yields_of_enterTag (h : l.Between ignored c false)
    (hs : tagFrom c.before c.after = some start) :
    (∀ name, elementAt ignored start.next = some name →
      Yields (l.enterTag (start.offset + 1))
        (fun d => .ignored name start.offset d.offset) false (closeIgnored name start.next)) ∧
    (elementAt ignored start.next = none →
      Yields (l.enterTag (start.offset + 1))
        (fun d => .tag start.offset d.offset) true (closeTag start.next)) := by
  obtain ⟨ht, henter⟩ := enterTag_eq h hs
  have htag := (tagFrom_eq_some_iff.1 hs).2.1
  rw [henter]
  by_cases hcomment : start.next.startsWith commentName = true
  · have hno : elementAt ignored start.next = none := if_pos hcomment
    have hclose : closeTag start.next = closeComment start.next := if_pos hcomment
    rw [hno, hclose, if_pos hcomment]
    refine ⟨fun name hn => (nomatch hn), fun _ => ?_⟩
    exact yields_of_comment (l := { l with
      tagStart := start.offset, cursor := start.next.offset, depth := 1, state := .comment })
      rfl ht rfl
  · have hfind : elementAt ignored start.next = ignored.find? start.next.startsWith :=
      if_neg hcomment
    have hclose : closeTag start.next =
        closeFrom (start.offset + 1) (.tag 0) start.next.before start.next.after := by
      rw [← offset_next_of_isTagStart htag]
      exact if_neg hcomment
    rw [hfind, hclose, if_neg hcomment]
    cases ignored.find? start.next.startsWith with
    | some element =>
      refine ⟨fun name hn => ?_, fun hn => (nomatch hn)⟩
      obtain rfl := Option.some.inj hn
      exact yields_of_ignoredBody (l := { l with
        tagStart := start.offset, cursor := start.next.offset, depth := 1,
        state := .ignoredBody, ignoredTag := element }) rfl ht rfl h.afterTag_eq
    | none =>
      refine ⟨fun name hn => (nomatch hn), fun _ => ?_⟩
      exact yields_of_inTag (l := { l with
        tagStart := start.offset, cursor := start.next.offset, depth := 1, state := .tag })
        ⟨ht, rfl, rfl, rfl⟩

end Enter

/-! ### The machine and the lexing -/

/-- A segment by byte offsets. -/
def Segment.piece : Segment → Piece
  | .tag start stop => .tag start.offset stop.offset
  | .ignored name start stop => .ignored name start.offset stop.offset
  | .text start stop => .text start.offset (start.upTo stop)

/-- What a lexing yields by offsets: its segments, and then its failure. -/
def itemsOf (segments : List Segment) (failure : Option ScanError) :
    List (Except AuditError Piece) :=
  segments.map (fun s => .ok s.piece) ++ failure.toList.map fun e => .error (.scan e)

theorem Iterates.of_silent {l l' last : Lexer} {items : List (Except AuditError Piece)}
    (hs : Silent l l') (h : Iterates l' items last) : Iterates l items last := by
  induction hs using Relation.ReflTransGen.head_induction_on with
  | refl => exact h
  | head hturn _ ih => exact .again hturn ih

/-- A lexer that fails yields its failure and is done. -/
theorem Iterates.of_fails {l l₁ : Lexer} {e : ScanError} (hs : Silent l l₁)
    (hf : l₁.turn = .fails (.scan e)) :
    Iterates l (itemsOf [] (some e)) l₁.halted :=
  .of_silent hs (.fails hf (.ends l₁.turn_halted))

/-- The machine follows a reading from tag to tag. -/
theorem Reading.iterates {ignored : List Text} {c : Cursor} {segments : List Segment}
    {f : Option ScanError} (h : Reading ignored c segments f) {l : Lexer}
    (hl : l.Between ignored c false) :
    ∃ last, Iterates l (itemsOf segments f) last ∧ last.state = .text := by
  induction h generalizing l with
  | finish hs => exact ⟨l, .ends (Lexer.turn_of_tagFrom_eq_none hl hs), hl.state_eq⟩
  | elementFails hs hname he =>
    have hy := (yields_of_enterTag hl hs).1 _ hname
    rw [he] at hy
    obtain ⟨l₁, hsilent, hf⟩ := hy
    have hturn := Lexer.turn_of_tagFrom_eq_some hl hs
    exact ⟨l₁.halted, .again hturn (.of_fails hsilent hf), rfl⟩
  | element hs hname hstop _ ih =>
    have hy := (yields_of_enterTag hl hs).1 _ hname
    rw [hstop] at hy
    obtain ⟨l₁, l₂, hsilent, hyield, hb⟩ := hy
    have hturn := Lexer.turn_of_tagFrom_eq_some hl hs
    rw [Lexer.enterTag_ignored, hl.ignored_eq] at hb
    obtain ⟨last, hrest, hlast⟩ := ih hb
    exact ⟨last, .again hturn (.of_silent hsilent (.yields hyield hrest)), hlast⟩
  | tagFails hs hname he =>
    have hy := (yields_of_enterTag hl hs).2 hname
    rw [he] at hy
    obtain ⟨l₁, hsilent, hf⟩ := hy
    have hturn := Lexer.turn_of_tagFrom_eq_some hl hs
    exact ⟨l₁.halted, .again hturn (.of_fails hsilent hf), rfl⟩
  | tag hs hname hstop hrun _ ih =>
    have hy := (yields_of_enterTag hl hs).2 hname
    rw [hstop] at hy
    obtain ⟨l₁, l₂, hsilent, hyield, hb⟩ := hy
    have hturn := Lexer.turn_of_tagFrom_eq_some hl hs
    rw [Lexer.enterTag_ignored, hl.ignored_eq] at hb
    obtain ⟨l₃, htext, hb⟩ := Lexer.turn_of_afterTag hb
    rw [hrun] at htext hb
    obtain ⟨last, hrest, hlast⟩ := ih hb
    exact ⟨last, .again hturn (.of_silent hsilent (.yields hyield (.yields htext hrest))), hlast⟩

/-- **The machine yields the lexing**: its pieces are the segments by offsets,
followed by the failure if there is one, and it ends between tags. -/
theorem iterates_lex (text : Text) (ignored : List Text) :
    ∃ last, Iterates (Lexer.new text ignored)
      (itemsOf (lex ignored text).segments (lex ignored text).failure) last ∧
        last.state = .text :=
  (reading_lex ignored text).iterates (Lexer.between_new text ignored)

/-- A lexer yields the same, however it is iterated over. -/
theorem Iterates.unique {l last last' : Lexer} {items items' : List (Except AuditError Piece)}
    (h : Iterates l items last) (h' : Iterates l items' last') : items' = items ∧ last' = last := by
  induction h generalizing items' with
  | ends hturn =>
    cases h' with
    | ends => exact ⟨rfl, rfl⟩
    | again hturn' | yields hturn' | fails hturn' => cases hturn.symm.trans hturn'
  | again hturn _ ih =>
    cases h' with
    | again hturn' h' =>
      obtain rfl := Turn.again.inj (hturn.symm.trans hturn')
      exact ih h'
    | ends hturn' | yields hturn' | fails hturn' => cases hturn.symm.trans hturn'
  | yields hturn _ ih =>
    cases h' with
    | yields hturn' h' =>
      obtain ⟨rfl, rfl⟩ := Turn.yields.inj (hturn.symm.trans hturn')
      obtain ⟨rfl, rfl⟩ := ih h'
      exact ⟨rfl, rfl⟩
    | ends hturn' | again hturn' | fails hturn' => cases hturn.symm.trans hturn'
  | fails hturn _ ih =>
    cases h' with
    | fails hturn' h' =>
      obtain rfl := Turn.fails.inj (hturn.symm.trans hturn')
      obtain ⟨rfl, rfl⟩ := ih h'
      exact ⟨rfl, rfl⟩
    | ends hturn' | again hturn' | yields hturn' => cases hturn.symm.trans hturn'

/-- Iterating over the lexer of a text yields the items of the lexing, and nothing else. -/
theorem iterates_new_iff {text : Text} {ignored : List Text}
    {items : List (Except AuditError Piece)} :
    (∃ last, Iterates (Lexer.new text ignored) items last) ↔
      items = itemsOf (lex ignored text).segments (lex ignored text).failure := by
  obtain ⟨last, hrun, -⟩ := iterates_lex text ignored
  constructor
  · rintro ⟨last', hrun'⟩
    exact (hrun.unique hrun').1
  · rintro rfl
    exact ⟨last, hrun⟩

/-! ### All lexers on the way -/

theorem reaches_head {l m : Lexer} (h : Reaches Lexer.step l m) :
    m = l ∨ ∃ l', l.step = some l' ∧ Reaches Lexer.step l' m := by
  rcases Relation.ReflTransGen.cases_head h with rfl | ⟨l', hstep, hr⟩
  · exact .inl rfl
  · exact .inr ⟨l', hstep, hr⟩

/-- A run that ends has no stuck lexer on its way. -/
theorem Iterates.not_stuck {l m last : Lexer} {items : List (Except AuditError Piece)}
    (h : Iterates l items last) (hm : Reaches Lexer.step l m) (fault : Fault) :
    m.turn ≠ .stuck fault := by
  induction h with
  | ends hturn =>
    rcases reaches_head hm with rfl | ⟨l', hstep, -⟩
    · simp [hturn]
    · simp [Lexer.step, hturn] at hstep
  | again hturn _ ih | yields hturn _ ih | fails hturn _ ih =>
    rcases reaches_head hm with rfl | ⟨l', hstep, hr⟩
    · simp [hturn]
    · simp only [Lexer.step, hturn, Option.some.injEq] at hstep
      exact ih (hstep ▸ hr)

/-- No lexer that reading a text comes to is stuck. -/
theorem not_stuck {text : Text} {ignored : List Text} {l : Lexer}
    (h : Reaches Lexer.step (Lexer.new text ignored) l) (fault : Fault) :
    l.turn ≠ .stuck fault := by
  obtain ⟨last, hrun, -⟩ := iterates_lex text ignored
  exact hrun.not_stuck h fault

theorem Lexer.inside_of_tagTurn {l l' : Lexer} {b : UInt8} (h : l.tagTurn b = .again l')
    (hl : l.state = .tag) : l'.state ≠ .text ∧ l'.tagStart = l.tagStart := by
  unfold tagTurn at h
  split at h
  · split at h
    · cases h
    · cases h
    · obtain rfl := Turn.again.inj h
      exact ⟨by simp [hl], rfl⟩
  · split at h
    · obtain rfl := Turn.again.inj h
      exact ⟨by simp [hl], rfl⟩
    · split at h
      · obtain rfl := Turn.again.inj h
        exact ⟨by simp, rfl⟩
      · obtain rfl := Turn.again.inj h
        exact ⟨by simp [hl], rfl⟩

/-- A silent turn inside a tag stays in it. -/
theorem Lexer.inside_of_again {l l' : Lexer} (h : l.turn = .again l') (hl : l.state ≠ .text) :
    l'.state ≠ .text ∧ l'.tagStart = l.tagStart := by
  cases hstate : l.state with
  | text => exact absurd hstate hl
  | ignoredBody | comment =>
    simp only [turn, hstate, closeTag] at h
    split at h <;> cases h
  | expression =>
    simp only [turn, hstate] at h
    split at h
    · cases h
    · obtain rfl := Turn.again.inj h
      exact ⟨by simp, rfl⟩
  | tag =>
    simp only [turn, hstate] at h
    split at h
    · cases h
    · exact inside_of_tagTurn h hstate

/-- From inside a tag the machine comes to lexers in the same tag, until the
silent turns end. -/
theorem inside_or_behind {l l₁ m : Lexer} (hs : Silent l l₁) (hl : l.state ≠ .text)
    (hm : Reaches Lexer.step l m) :
    m.tagStart = l.tagStart ∨ ∃ l₂, l₁.step = some l₂ ∧ Reaches Lexer.step l₂ m := by
  induction hs using Relation.ReflTransGen.head_induction_on with
  | refl =>
    rcases reaches_head hm with rfl | hm
    · exact .inl rfl
    · exact .inr hm
  | @head l l' hturn _ ih =>
    obtain ⟨hl', hstart⟩ := Lexer.inside_of_again hturn hl
    rcases reaches_head hm with rfl | ⟨l₂, hstep, hr⟩
    · exact .inl rfl
    · simp only [Lexer.step, hturn, Option.some.injEq] at hstep
      rw [← hstart]
      exact ih hl' (hstep ▸ hr)

theorem Lexer.enterTag_inside (l : Lexer) (name : Nat) :
    (l.enterTag name).state ≠ .text ∧ (l.enterTag name).tagStart = name - 1 := by
  unfold enterTag
  dsimp only
  split
  · exact ⟨by simp, rfl⟩
  · split
    · exact ⟨by simp, rfl⟩
    · exact ⟨by simp, rfl⟩

section Enters

variable {ignored : List Text} {c start : Cursor} {l l₁ m : Lexer}

/-- A lexer inside a tag that is reached from between tags is in the next tag,
or is reached behind it. -/
theorem inside_next_or_behind (hl : l.Between ignored c false)
    (hs : tagFrom c.before c.after = some start)
    (hsilent : Silent (l.enterTag (start.offset + 1)) l₁) (hm : Reaches Lexer.step l m)
    (hin : m.state ≠ .text) :
    m.tagStart = start.offset ∨ ∃ l₂, l₁.step = some l₂ ∧ Reaches Lexer.step l₂ m := by
  rcases reaches_head hm with rfl | ⟨l', hstep, hr⟩
  · exact absurd hl.state_eq hin
  · simp only [Lexer.step, Lexer.turn_of_tagFrom_eq_some hl hs, Option.some.injEq] at hstep
    obtain ⟨hentered, hstart⟩ := l.enterTag_inside (start.offset + 1)
    have h := inside_or_behind hsilent hentered (hstep ▸ hr)
    rwa [hstart, Nat.add_sub_cancel] at h

/-- A failed lexer comes to no tag again. -/
theorem inside_next_of_fails {e : AuditError} (hl : l.Between ignored c false)
    (hs : tagFrom c.before c.after = some start)
    (hsilent : Silent (l.enterTag (start.offset + 1)) l₁) (hf : l₁.turn = .fails e)
    (hm : Reaches Lexer.step l m) (hin : m.state ≠ .text) : m.tagStart = start.offset := by
  rcases inside_next_or_behind hl hs hsilent hm hin with hstart | ⟨l₂, hstep, hr⟩
  · exact hstart
  · simp only [Lexer.step, hf, Option.some.injEq] at hstep
    subst hstep
    rcases reaches_head hr with rfl | ⟨l₃, hstep, -⟩
    · exact absurd rfl hin
    · simp [Lexer.step, l₁.turn_halted] at hstep

/-- **A tag that the machine is in is a step of the reading**: the segments
split where the tag is entered. -/
theorem Reading.enters {segments : List Segment} {f : Option ScanError}
    (h : Reading ignored c segments f) (hl : l.Between ignored c false)
    (hm : Reaches Lexer.step l m) (hin : m.state ≠ .text) :
    ∃ d start earlier rest, segments = earlier ++ rest ∧ c ≤ d ∧ Reading ignored d rest f ∧
      tagFrom d.before d.after = some start ∧ m.tagStart = start.offset := by
  induction h generalizing l with
  | finish hs =>
    rcases reaches_head hm with rfl | ⟨l', hstep, -⟩
    · exact absurd hl.state_eq hin
    · simp [Lexer.step, Lexer.turn_of_tagFrom_eq_none hl hs] at hstep
  | elementFails hs hname he =>
    have hy := (yields_of_enterTag hl hs).1 _ hname
    rw [he] at hy
    obtain ⟨l₁, hsilent, hf⟩ := hy
    have hstart := inside_next_of_fails hl hs hsilent hf hm hin
    exact ⟨_, _, [], _, rfl, le_rfl, .elementFails hs hname he, hs, hstart⟩
  | @element c start stop name rest f hs hname hstop hrest ih =>
    have hy := (yields_of_enterTag hl hs).1 _ hname
    rw [hstop] at hy
    obtain ⟨l₁, l₂, hsilent, hyield, hb⟩ := hy
    rw [Lexer.enterTag_ignored, hl.ignored_eq] at hb
    rcases inside_next_or_behind hl hs hsilent hm hin with hstart | ⟨l₃, hstep, hr⟩
    · exact ⟨_, _, [], _, rfl, le_rfl, .element hs hname hstop hrest, hs, hstart⟩
    · simp only [Lexer.step, hyield, Option.some.injEq] at hstep
      obtain ⟨d, s, earlier, later, rfl, hd, hrd⟩ := ih hb (hstep ▸ hr)
      obtain ⟨hc, hlt, -⟩ := bounds_of_step hs (le_of_closeIgnored hstop)
      exact ⟨d, s, .ignored name start stop :: earlier, later, rfl, (hc.trans hlt.le).trans hd, hrd⟩
  | tagFails hs hname he =>
    have hy := (yields_of_enterTag hl hs).2 hname
    rw [he] at hy
    obtain ⟨l₁, hsilent, hf⟩ := hy
    have hstart := inside_next_of_fails hl hs hsilent hf hm hin
    exact ⟨_, _, [], _, rfl, le_rfl, .tagFails hs hname he, hs, hstart⟩
  | @tag c start stop run rest f hs hname hstop hrun hrest ih =>
    have hy := (yields_of_enterTag hl hs).2 hname
    rw [hstop] at hy
    obtain ⟨l₁, l₂, hsilent, hyield, hb⟩ := hy
    rw [Lexer.enterTag_ignored, hl.ignored_eq] at hb
    obtain ⟨l₃, htext, hb'⟩ := Lexer.turn_of_afterTag hb
    rw [hrun] at htext hb'
    rcases inside_next_or_behind hl hs hsilent hm hin with hstart | ⟨l₄, hstep, hr⟩
    · exact ⟨_, _, [], _, rfl, le_rfl, .tag hs hname hstop hrun hrest, hs, hstart⟩
    · simp only [Lexer.step, hyield, Option.some.injEq] at hstep
      subst hstep
      rcases reaches_head hr with rfl | ⟨l₅, hstep, hr⟩
      · exact absurd hb.state_eq hin
      · simp only [Lexer.step, htext, Option.some.injEq] at hstep
        obtain ⟨d, s, earlier, later, rfl, hd, hrd⟩ := ih hb' (hstep ▸ hr)
        obtain ⟨hc, hlt, -⟩ := bounds_of_step hs (le_of_closeTag hstop)
        have hle : stop ≤ run := hrun ▸ le_textEnd stop
        exact ⟨d, s, .tag start stop :: .text stop run :: earlier, later, rfl,
          ((hc.trans hlt.le).trans hle).trans hd, hrd⟩

end Enters

end Markup

end CartridgeAudit
