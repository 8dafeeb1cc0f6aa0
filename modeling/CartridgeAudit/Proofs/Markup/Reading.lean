/-
CartridgeAudit/Proofs/Markup/Reading.lean

The reading of a template, step by step.

`Reading` says once what one step from tag to tag can do: nothing if no tag is
ahead, stop at a malformed tag, take an ignored element as a whole, or take a
tag together with the text run behind it.  The lexing of a template is a reading
(`reading_lexFrom`), and what is true of its segments is shown by induction on
it:

* they lie one behind the other (`Reading.pairwise`);
* tags and ignored elements begin at tag starts and are not empty
  (`Reading.of_isElement`);
* text runs stand directly behind tags and nowhere else (`Reading.mem_text_iff`);
* a reading to the end passes over no tag start (`Reading.covers`).
-/
import CartridgeAudit.Proofs.Markup.Scanner
import Mathlib.Data.List.Pairwise

namespace CartridgeAudit.Markup

open Cursor

/-! ### Steps -/

/-- The ignored element that begins at a name, if it is one. -/
def elementAt (ignored : List Text) (name : Cursor) : Option Text :=
  if name.startsWith commentName then none else ignored.find? name.startsWith

/-- What reading from a place between tags gives: segments, and why it stopped
early. -/
inductive Reading (ignored : List Text) : Cursor → List Segment → Option ScanError → Prop
  | finish {c : Cursor} :
      tagFrom c.before c.after = none → Reading ignored c [] none
  | elementFails {c start : Cursor} {name : Text} {e : ScanError} :
      tagFrom c.before c.after = some start → elementAt ignored start.next = some name →
      closeIgnored name start.next = .error e → Reading ignored c [] (some e)
  | element {c start stop : Cursor} {name : Text} {rest : List Segment} {f : Option ScanError} :
      tagFrom c.before c.after = some start → elementAt ignored start.next = some name →
      closeIgnored name start.next = .ok stop → Reading ignored stop rest f →
      Reading ignored c (.ignored name start stop :: rest) f
  | tagFails {c start : Cursor} {e : ScanError} :
      tagFrom c.before c.after = some start → elementAt ignored start.next = none →
      closeTag start.next = .error e → Reading ignored c [] (some e)
  | tag {c start stop run : Cursor} {rest : List Segment} {f : Option ScanError} :
      tagFrom c.before c.after = some start → elementAt ignored start.next = none →
      closeTag start.next = .ok stop → textEnd stop.before stop.after = run →
      Reading ignored run rest f →
      Reading ignored c (.tag start stop :: .text stop run :: rest) f

/-- The lexing from a place on is a reading. -/
theorem reading_lexFrom (ignored : List Text) (c : Cursor) :
    Reading ignored c (lexFrom ignored c).segments (lexFrom ignored c).failure := by
  induction hn : c.after.length using Nat.strongRecOn generalizing c with
  | _ n ih =>
    rw [lexFrom]
    split
    · next hs => exact .finish hs
    · next start hs =>
      have hstart := length_tagFrom hs
      have hnext := length_next hstart.2
      simp only
      split
      · next name hname =>
        split
        · next e he => exact .elementFails hs hname he
        · next stop hstop =>
          have hlen := length_closeIgnored hstop
          exact .element hs hname hstop (ih _ (by omega) stop rfl)
      · next hname =>
        split
        · next e he => exact .tagFails hs hname he
        · next stop hstop =>
          have hlen := length_closeTag hstop
          have hrun := length_textEnd stop.before stop.after
          exact .tag hs hname hstop rfl (ih _ (by omega) _ rfl)

theorem reading_lex (ignored : List Text) (text : Text) :
    Reading ignored text.start (lex ignored text).segments (lex ignored text).failure :=
  reading_lexFrom ignored text.start

/-! ### One step moves on -/

/-- A tag start has a character behind its `<`, where its name begins. -/
theorem next_eq_of_isTagStart {start : Cursor} (h : isTagStart start.after = true) :
    ∃ x xs, start = ⟨start.before, '<' :: x :: xs⟩ ∧ start.next = ⟨'<' :: start.before, x :: xs⟩ ∧
      Text.isBlank x = false := by
  obtain ⟨x, xs, ha, hx⟩ := isTagStart_iff.1 h
  obtain ⟨before, after⟩ := start
  simp only at ha
  subst ha
  exact ⟨x, xs, rfl, rfl, hx⟩

theorem lt_next_of_isTagStart {start : Cursor} (h : isTagStart start.after = true) :
    start < start.next := by
  obtain ⟨x, xs, hs, hn, -⟩ := next_eq_of_isTagStart h
  rw [hn, hs]
  exact lt_cons _ _ _

theorem le_of_closeComment {name d : Cursor} (h : closeComment name = .ok d) : name ≤ d := by
  unfold closeComment at h
  split at h
  · next e =>
    obtain rfl := Except.ok.inj h
    exact (endOf_eq_some_iff.1 e).1
  · cases h

theorem le_of_closeTag {name d : Cursor} (h : closeTag name = .ok d) : name ≤ d := by
  unfold closeTag at h
  split at h
  · exact le_of_closeComment h
  · exact (lt_of_closeFrom_eq_ok h).le

/-- A comment ends behind its closing sequence. -/
theorem closeComment_eq_ok_iff {name d : Cursor} :
    closeComment name = .ok d ↔ endOf [commentEnd] name = some d := by
  unfold closeComment
  cases endOf [commentEnd] name <;> simp

/-- Tags and comments end directly behind a `>`. -/
theorem head_of_closeTag {name d : Cursor} (h : closeTag name = .ok d) :
    d.before.head? = some '>' := by
  unfold closeTag at h
  split at h
  · obtain ⟨-, ⟨t, ht, -, hafter⟩, -⟩ := endOf_eq_some_iff.1 (closeComment_eq_ok_iff.1 h)
    obtain rfl := List.mem_singleton.1 ht
    obtain ⟨b, hb⟩ := List.isPrefixOf_iff_prefix.1 hafter
    rw [← hb]
    rfl
  · exact head_of_closeFrom_eq_ok h

/-- The way to the end of a tag ends in a `>`. -/
theorem exists_leads_of_closeTag {name m d : Cursor} (h : closeTag name = .ok d) (hm : m < d) :
    ∃ s, m.Leads (s ++ ['>']) d := by
  obtain ⟨b, hb⟩ := List.head?_eq_some_iff.1 (head_of_closeTag h)
  obtain ⟨s, hs⟩ := hm.le
  obtain ⟨s, x, rfl⟩ := List.eq_nil_or_concat s |>.resolve_left (hs.lt_iff.1 hm)
  have hx : '>' = x := by simpa [hb] using congrArg List.head? hs.behind
  exact ⟨s, by rwa [hx, ← List.concat_eq_append]⟩

theorem le_of_closeIgnored {element : Text} {name d : Cursor}
    (h : closeIgnored element name = .ok d) : name ≤ d := by
  unfold closeIgnored at h
  simp only at h
  split at h
  · next e =>
    obtain rfl := Except.ok.inj h
    exact (endOf_eq_some_iff.1 e).1
  · cases h

/-- The bounds of an element or tag that is read from a place on. -/
theorem bounds_of_step {c start stop : Cursor} (hs : tagFrom c.before c.after = some start)
    (hstop : start.next ≤ stop) :
    c ≤ start ∧ start < stop ∧ isTagStart start.after = true := by
  obtain ⟨hle, htag, -⟩ := tagFrom_eq_some_iff.1 hs
  exact ⟨hle, (lt_next_of_isTagStart htag).trans_le hstop, htag⟩

theorem le_textEnd (c : Cursor) : c ≤ textEnd c.before c.after := (textEnd_eq_iff.1 rfl).1

/-! ### The segments of a reading -/

namespace Segment

/-- Where a segment begins. -/
def start : Segment → Cursor
  | .tag start _ | .ignored _ start _ | .text start _ => start

/-- Where a segment ends. -/
def stop : Segment → Cursor
  | .tag _ stop | .ignored _ _ stop | .text _ stop => stop

/-- Whether a segment is a tag or an ignored element, and no text run. -/
def isElement : Segment → Bool
  | .tag _ _ | .ignored _ _ _ => true
  | .text _ _ => false

end Segment

variable {ignored : List Text} {c : Cursor} {segments : List Segment} {f : Option ScanError}

/-- All segments of a reading lie ahead of it, and none ends before it begins. -/
theorem Reading.ahead (h : Reading ignored c segments f) {s : Segment} (hs : s ∈ segments) :
    c ≤ s.start ∧ s.start ≤ s.stop := by
  induction h with
  | finish | elementFails | tagFails => cases hs
  | element htag _ hstop _ ih =>
    obtain ⟨hc, hlt, -⟩ := bounds_of_step htag (le_of_closeIgnored hstop)
    rcases List.mem_cons.1 hs with rfl | hs
    · exact ⟨hc, hlt.le⟩
    · obtain ⟨h₁, h₂⟩ := ih hs
      exact ⟨(hc.trans hlt.le).trans h₁, h₂⟩
  | @tag c start stop run rest f htag _ hstop hrun _ ih =>
    obtain ⟨hc, hlt, -⟩ := bounds_of_step htag (le_of_closeTag hstop)
    have hle : stop ≤ run := hrun ▸ le_textEnd stop
    rcases List.mem_cons.1 hs with rfl | hs
    · exact ⟨hc, hlt.le⟩
    rcases List.mem_cons.1 hs with rfl | hs
    · exact ⟨hc.trans hlt.le, hle⟩
    · obtain ⟨h₁, h₂⟩ := ih hs
      exact ⟨((hc.trans hlt.le).trans hle).trans h₁, h₂⟩

/-- The segments of a reading lie one behind the other. -/
theorem Reading.pairwise (h : Reading ignored c segments f) :
    segments.Pairwise fun s t => s.stop ≤ t.start := by
  induction h with
  | finish | elementFails | tagFails => exact .nil
  | element _ _ _ hrest ih => exact .cons (fun s hs => (hrest.ahead hs).1) ih
  | @tag c start stop run rest f htag _ hstop hrun hrest ih =>
    have hle : stop ≤ run := hrun ▸ le_textEnd stop
    refine .cons (fun s hs => ?_) (.cons (fun s hs => (hrest.ahead hs).1) ih)
    rcases List.mem_cons.1 hs with rfl | hs
    · exact le_refl stop
    · exact hle.trans (hrest.ahead hs).1

/-- One of two segments ends before the other begins. -/
def Segment.Apart (s t : Segment) : Prop := s.stop ≤ t.start ∨ t.stop ≤ s.start

instance : Std.Symm Segment.Apart := ⟨fun _ _ => Or.symm⟩

theorem Reading.apart (h : Reading ignored c segments f) {s t : Segment} (hs : s ∈ segments)
    (ht : t ∈ segments) (hne : s ≠ t) : s.Apart t :=
  (h.pairwise.imp .inl : segments.Pairwise Segment.Apart).forall hs ht hne

/-- Tags and ignored elements begin at tag starts and are not empty. -/
theorem Reading.of_isElement (h : Reading ignored c segments f) {s : Segment} (hs : s ∈ segments)
    (he : s.isElement = true) : s.start < s.stop ∧ isTagStart s.start.after = true := by
  induction h with
  | finish | elementFails | tagFails => cases hs
  | element htag _ hstop _ ih =>
    rcases List.mem_cons.1 hs with rfl | hs
    · exact (bounds_of_step htag (le_of_closeIgnored hstop)).2
    · exact ih hs
  | tag htag _ hstop _ _ ih =>
    rcases List.mem_cons.1 hs with rfl | hs
    · exact (bounds_of_step htag (le_of_closeTag hstop)).2
    rcases List.mem_cons.1 hs with rfl | hs
    · cases he
    · exact ih hs

/-- A tag of a reading is no ignored element, and it ends as tags do. -/
theorem Reading.closeTag_of_mem (h : Reading ignored c segments f) {a b : Cursor}
    (hs : .tag a b ∈ segments) :
    isTagStart a.after = true ∧ elementAt ignored a.next = none ∧ closeTag a.next = .ok b := by
  induction h with
  | finish | elementFails | tagFails => cases hs
  | element _ _ _ _ ih =>
    rcases List.mem_cons.1 hs with hs | hs
    · cases hs
    · exact ih hs
  | tag hstart hname hstop _ _ ih =>
    rcases List.mem_cons.1 hs with hs | hs
    · obtain ⟨rfl, rfl⟩ := Segment.tag.inj hs
      exact ⟨(tagFrom_eq_some_iff.1 hstart).2.1, hname, hstop⟩
    rcases List.mem_cons.1 hs with hs | hs
    · cases hs
    · exact ih hs

/-- The text runs are those behind the tags. -/
theorem Reading.mem_text_iff (h : Reading ignored c segments f) {a b : Cursor} :
    .text a b ∈ segments ↔
      ∃ start, .tag start a ∈ segments ∧ textEnd a.before a.after = b := by
  induction h with
  | finish | elementFails | tagFails => simp
  | element _ _ _ _ ih => simp [ih]
  | tag _ _ _ hrun _ ih =>
    subst hrun
    simp only [List.mem_cons, reduceCtorEq, Segment.text.injEq, Segment.tag.injEq, false_or, ih]
    constructor
    · rintro (⟨rfl, rfl⟩ | ⟨start, hs, hb⟩)
      · exact ⟨_, .inl ⟨rfl, rfl⟩, rfl⟩
      · exact ⟨start, .inr hs, hb⟩
    · rintro ⟨start, ⟨rfl, rfl⟩ | hs, rfl⟩
      · exact .inl ⟨rfl, rfl⟩
      · exact .inr ⟨start, hs, rfl⟩

/-- A reading to the end passes over no tag start: each one ahead lies in a tag
or an ignored element. -/
theorem Reading.covers (h : Reading ignored c segments f) (hf : f = none) {m : Cursor}
    (hm : c ≤ m) (htag : isTagStart m.after = true) :
    ∃ s ∈ segments, s.isElement = true ∧ s.start ≤ m ∧ m < s.stop := by
  induction h with
  | finish hnone =>
    have := tagFrom_eq_none_iff.1 hnone m hm
    simp [htag] at this
  | elementFails | tagFails => cases hf
  | @element c start stop name rest f hstart _ hstop _ ih =>
    obtain ⟨hc, hlt, -⟩ := bounds_of_step hstart (le_of_closeIgnored hstop)
    have hsm := (tagFrom_eq_some_iff.1 hstart).2.2 m hm htag
    rcases lt_or_le_of_le (hc.trans hlt.le) hm with hin | hbehind
    · exact ⟨.ignored name start stop, List.mem_cons_self, rfl, hsm, hin⟩
    · obtain ⟨s, hs, hr⟩ := ih hf hbehind
      exact ⟨s, List.mem_cons_of_mem _ hs, hr⟩
  | @tag c start stop run rest f hstart _ hstop hrun _ ih =>
    obtain ⟨hc, hlt, -⟩ := bounds_of_step hstart (le_of_closeTag hstop)
    have hsm := (tagFrom_eq_some_iff.1 hstart).2.2 m hm htag
    rcases lt_or_le_of_le (hc.trans hlt.le) hm with hin | hbehind
    · exact ⟨.tag start stop, List.mem_cons_self, rfl, hsm, hin⟩
    · -- the text run ends at this tag start at the latest
      have hr := (textEnd_eq_iff.1 hrun).2.2 m hbehind (endsRun_of_isTagStart htag)
      obtain ⟨s, hs, hr⟩ := ih hf hr
      exact ⟨s, List.mem_cons_of_mem _ (List.mem_cons_of_mem _ hs), hr⟩

end CartridgeAudit.Markup
