/-
CartridgeAudit/Proofs/Markup/Segmentation.lean

How the segments of a template lie in its text.

`Segmented` lists, by byte offsets, what is true of the pieces that a lexer
yields: they stand in the order of the text and do not overlap; a tag or an
ignored element begins at a tag start and is not empty; a text run is the text
between its offsets, and stands directly behind a tag and nowhere else; and if
all of the text could be read, each tag start lies in exactly one tag or ignored
element.

Main result: whatever the text and the ignored elements, iterating over the
lexer ends, between tags, with the pieces of the lexing and at most one failure
behind them; no lexer on the way is stuck; and the pieces are segmented
(`lexer_iterates_segmented`).
-/
import CartridgeAudit.Proofs.Markup.Lexer

namespace CartridgeAudit.Markup

open Cursor StateTransition

/-! ### Pieces in a text -/

namespace Piece

/-- The byte offset where a piece begins. -/
def start : Piece → Nat
  | .tag start _ | .ignored _ start _ | .text start _ => start

/-- The byte offset where a piece ends. -/
def stop : Piece → Nat
  | .tag _ stop | .ignored _ _ stop => stop
  | .text start content => start + content.byteLength

/-- Whether a piece is a tag or an ignored element, and no text run. -/
def isElement : Piece → Bool
  | .tag _ _ | .ignored _ _ _ => true
  | .text _ _ => false

end Piece

/-- At a byte offset stands `<`, followed by a character that is not blank. -/
def TagStartAt (text : Text) (o : Nat) : Prop :=
  ∃ s x r, text = s ++ '<' :: x :: r ∧ s.byteLength = o ∧ Text.isBlank x = false

/-- Each tag is followed at once by one text run, which begins where the tag
ends, and there are no other text runs. -/
inductive Paired : List Piece → Prop
  | nil : Paired []
  | ignored {name : Text} {start stop : Nat} {rest : List Piece} :
      Paired rest → Paired (.ignored name start stop :: rest)
  | tag {start stop : Nat} {content : Text} {rest : List Piece} :
      Paired rest → Paired (.tag start stop :: .text stop content :: rest)

/-- How pieces lie in the text they were read from. -/
structure Segmented (text : Text) (pieces : List Piece) (failure : Option ScanError) : Prop where
  ordered : pieces.Pairwise fun p q => p.stop ≤ q.start
  inside : ∀ p ∈ pieces, p.start ≤ p.stop ∧ p.stop ≤ text.byteLength
  element : ∀ p ∈ pieces, p.isElement = true → p.start < p.stop ∧ TagStartAt text p.start
  content : ∀ start content, .text start content ∈ pieces →
    text.slice? start (start + content.byteLength) = some content
  paired : Paired pieces
  covered : failure = none → ∀ o, TagStartAt text o →
    ∃! p, p ∈ pieces ∧ p.isElement = true ∧ p.start ≤ o ∧ o < p.stop

/-! ### Places and offsets of segments -/

theorem tagStartAt_offset {m : Cursor} (h : isTagStart m.after = true) :
    TagStartAt m.text m.offset := by
  obtain ⟨x, xs, ha, hx⟩ := isTagStart_iff.1 h
  exact ⟨m.before.reverse, x, xs, by rw [Cursor.text, ha], by simp [offset], hx⟩

theorem exists_of_tagStartAt {text : Text} {o : Nat} (h : TagStartAt text o) :
    ∃ m : Cursor, m.text = text ∧ m.offset = o ∧ isTagStart m.after = true := by
  obtain ⟨s, x, r, rfl, rfl, hx⟩ := h
  exact ⟨⟨s.reverse, '<' :: x :: r⟩, by simp [Cursor.text], by simp [offset],
    isTagStart_iff.2 ⟨x, r, rfl, hx⟩⟩

namespace Segment

@[simp] theorem start_piece (s : Segment) : s.piece.start = s.start.offset := by
  cases s <;> rfl

@[simp] theorem isElement_piece (s : Segment) : s.piece.isElement = s.isElement := by
  cases s <;> rfl

theorem stop_piece {s : Segment} (h : s.start ≤ s.stop) : s.piece.stop = s.stop.offset := by
  cases s with
  | tag | ignored => rfl
  | text start stop => exact (leads_upTo h).offset_eq.symm

end Segment

/-! ### Readings are segmented -/

section Reading

variable {ignored : List Text} {c : Cursor} {segments : List Segment} {f : Option ScanError}

theorem Reading.stop_piece (h : Reading ignored c segments f) {s : Segment} (hs : s ∈ segments) :
    s.piece.stop = s.stop.offset :=
  Segment.stop_piece (h.ahead hs).2

theorem Reading.text_start (h : Reading ignored c segments f) {s : Segment} (hs : s ∈ segments) :
    s.start.text = c.text := text_eq_of_le (h.ahead hs).1

theorem Reading.text_stop (h : Reading ignored c segments f) {s : Segment} (hs : s ∈ segments) :
    s.stop.text = c.text := (text_eq_of_le (h.ahead hs).2).trans (h.text_start hs)

theorem Reading.paired (h : Reading ignored c segments f) :
    Paired (segments.map Segment.piece) := by
  induction h with
  | finish | elementFails | tagFails => exact .nil
  | element _ _ _ _ ih => exact .ignored ih
  | tag _ _ _ _ _ ih => exact .tag ih

theorem Reading.ordered (h : Reading ignored c segments f) :
    (segments.map Segment.piece).Pairwise fun p q => p.stop ≤ q.start := by
  refine List.pairwise_map.2 (h.pairwise.imp_of_mem fun {s t} hs _ hst => ?_)
  rw [h.stop_piece hs, Segment.start_piece]
  exact offset_le_of_le hst

theorem Reading.segmented (h : Reading ignored c segments f) (hc : c = Text.start c.text) :
    Segmented c.text (segments.map Segment.piece) f where
  ordered := h.ordered
  inside := by
    intro p hp
    obtain ⟨s, hs, rfl⟩ := List.mem_map.1 hp
    rw [h.stop_piece hs, Segment.start_piece, ← h.text_stop hs]
    exact ⟨offset_le_of_le (h.ahead hs).2, s.stop.offset_le_byteLength⟩
  element := by
    intro p hp he
    obtain ⟨s, hs, rfl⟩ := List.mem_map.1 hp
    obtain ⟨hlt, htag⟩ := h.of_isElement hs (by simpa using he)
    rw [h.stop_piece hs, Segment.start_piece, ← h.text_start hs]
    exact ⟨offset_lt_of_lt hlt, tagStartAt_offset htag⟩
  content := by
    intro start content hp
    obtain ⟨s, hs, hpiece⟩ := List.mem_map.1 hp
    cases s with
    | tag | ignored => cases hpiece
    | text a b =>
      obtain ⟨rfl, rfl⟩ := Piece.text.inj hpiece
      have hab : a ≤ b := (h.ahead hs).2
      have ht : a.text = c.text := h.text_start hs
      rw [← (leads_upTo hab).offset_eq, ← ht]
      exact slice?_of_le hab
  paired := h.paired
  covered := by
    intro hf o ho
    obtain ⟨m, hm, rfl, htag⟩ := exists_of_tagStartAt ho
    have hcm : c ≤ m := by
      rw [hc, ← hm]
      exact m.start_le
    obtain ⟨s, hs, he, hsm, hms⟩ := h.covers hf hcm htag
    have hin : s.piece.start ≤ m.offset ∧ m.offset < s.piece.stop := by
      rw [h.stop_piece hs, Segment.start_piece]
      exact ⟨offset_le_of_le hsm, offset_lt_of_lt hms⟩
    have hp : s.piece ∈ segments.map Segment.piece := List.mem_map_of_mem hs
    refine ⟨s.piece, ⟨hp, by simpa using he, hin⟩, ?_⟩
    rintro q ⟨hq, -, hqo⟩
    obtain ⟨t, ht, rfl⟩ := List.mem_map.1 hq
    by_contra hne
    rw [h.stop_piece ht, Segment.start_piece] at hqo
    rw [h.stop_piece hs, Segment.start_piece] at hin
    rcases h.apart ht hs (fun heq => hne (heq ▸ rfl)) with hts | hst
    · have := offset_le_of_le hts
      omega
    · have := offset_le_of_le hst
      omega

end Reading

/-- **Iterating over the lexer segments the text**: it ends between tags, with
the pieces of the lexing and at most one failure behind them, no lexer on the
way runs its count below zero or cuts a character, and the pieces lie in the
text as they should. -/
theorem lexer_iterates_segmented (text : Text) (ignored : List Text) :
    (∃ last, Iterates (Lexer.new text ignored)
      (itemsOf (lex ignored text).segments (lex ignored text).failure) last ∧
        last.state = .text) ∧
    (∀ l fault, Reaches Lexer.step (Lexer.new text ignored) l → l.turn ≠ .stuck fault) ∧
    Segmented text ((lex ignored text).segments.map Segment.piece) (lex ignored text).failure :=
  ⟨iterates_lex text ignored, fun _ fault h => not_stuck h fault,
    (reading_lex ignored text).segmented rfl⟩

end CartridgeAudit.Markup
