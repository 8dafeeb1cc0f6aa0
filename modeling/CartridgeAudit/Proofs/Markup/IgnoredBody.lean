/-
CartridgeAudit/Proofs/Markup/IgnoredBody.lean

The body of an ignored element.

An ignored element ends where a `>` first stands behind a slash, or behind `</`
and its name (`ends_iff`).  `ElementText` is a template with a script or comment
element in it, with the places where the element and its body begin and end.
Before its closing tag only two things end the element: attributes that end like
the closing tag, and a `/>` in its body
(`ElementText.closeIgnored_eq_stop_iff`).

Main result: an element that the lexer enters is one segment; it goes up to the
closing tag if and only if nothing ends it before, and then no literal text and
no inline style is found in its body (`ElementText.ignored_stop_iff`).  The
finder of inline styles can still fail there, since the search for the end of an
output tag in an earlier tag may run on into the body.
-/
import CartridgeAudit.Proofs.Markup.Finding
import CartridgeAudit.Proofs.Markup.Lexer
import CartridgeAudit.Proofs.Text.Parts

namespace CartridgeAudit.Markup

open Cursor StateTransition

/-! ### Ways that end in a mark -/

/-- Before the mark that ends a way, the mark has not been passed. -/
theorem exists_leads_of_lt {a : Char} {c m d : Cursor} {v : Text} (h : c.Leads (v ++ [a]) d)
    (ha : a ∉ v) (hm : c ≤ m) (hlt : m < d) : ∃ s, c.Leads s m ∧ a ∉ s := by
  obtain ⟨s, r, heq, hs, hr⟩ := h.split_of_le hm hlt.le
  obtain ⟨r, z, rfl⟩ := List.eq_nil_or_concat r |>.resolve_left (hr.lt_iff.1 hlt)
  rw [List.concat_eq_append, ← List.append_assoc] at heq
  obtain ⟨rfl, -⟩ := List.append_inj' heq rfl
  exact ⟨s, hs, fun hmem => ha (List.mem_append_left r hmem)⟩

/-! ### Where ignored elements end -/

/-- What stands before the `>` of a sequence that ends an element. -/
def IsCloser (name u : Text) : Prop := u = '<' :: '/' :: name ∨ u = ['/']

/-- An element with the name, read up to here, ends. -/
def Ends (name : Text) (m : Cursor) : Prop := Follows [closingTag name, "/>".toList] m

theorem ends_iff {name : Text} {m : Cursor} :
    Ends name m ↔ ∃ u, IsCloser name u ∧ u ++ ['>'] <:+ m.before.reverse := by
  simp only [Ends, Follows, List.mem_cons, List.not_mem_nil, or_false, isAfter_iff_suffix, IsCloser]
  constructor
  · rintro ⟨-, rfl | rfl, -, hm⟩
    · exact ⟨_, .inl rfl, by simpa [closingTag] using hm⟩
    · exact ⟨_, .inr rfl, hm⟩
  · rintro ⟨-, rfl | rfl, hm⟩
    · exact ⟨closingTag name, .inl rfl, by simp [closingTag], by simpa [closingTag] using hm⟩
    · exact ⟨"/>".toList, .inr rfl, by simp, hm⟩

theorem closeIgnored_eq_ok_iff {name : Text} {c d : Cursor} :
    closeIgnored name c = .ok d ↔
      c ≤ d ∧ Ends name d ∧ ∀ m, c ≤ m → Ends name m → d ≤ m := by
  unfold Ends
  rw [← endOf_eq_some_iff, closeIgnored]
  cases endOf [closingTag name, "/>".toList] c <;> simp

/-! ### A template with an element -/

/-- The lexer of a template enters a tag at a byte offset. -/
def Enters (text : Text) (o : Nat) : Prop :=
  ∃ l, Reaches Lexer.step (Lexer.new text scriptTags) l ∧ l.state ≠ .text ∧ l.tagStart = o

theorem of_mem_scriptTags {name : Text} (h : name ∈ scriptTags) :
    '<' ∉ name ∧ '>' ∉ name ∧ '/' ∉ name ∧ name ≠ [] := by
  have hall : ∀ name ∈ scriptTags, '<' ∉ name ∧ '>' ∉ name ∧ '/' ∉ name ∧ name ≠ [] := by decide
  exact hall name h

/-- A name that is read is the name of its element. -/
theorem elementAt_of_mem {name : Text} (h : name ∈ scriptTags) (before rest : Text) :
    elementAt scriptTags ⟨before, name ++ rest⟩ = some name := by
  simp only [scriptTags, List.mem_cons, List.not_mem_nil, or_false] at h
  rcases h with rfl | rfl | rfl <;> rfl

/-- A template with a script or comment element in it: what is before the
element, its name, what stands between the name and the first `>`, its body, and
what is behind its closing tag. -/
structure ElementText where
  before : Text
  name : Text
  attributes : Text
  body : Text
  behind : Text
  name_mem : name ∈ scriptTags
  attributes_open : '>' ∉ attributes
  attributes_end : ¬ ['/'] <:+ attributes
  body_open : ¬ closingTag name <:+: body

namespace ElementText

variable (t : ElementText)

/-- The whole template. -/
def text : Text :=
  t.before ++ '<' :: t.name ++ t.attributes ++ '>' :: t.body ++ closingTag t.name ++ t.behind

/-- The place of the element's `<`. -/
def start : Cursor :=
  ⟨t.before.reverse,
    '<' :: (t.name ++ (t.attributes ++ '>' :: (t.body ++ (closingTag t.name ++ t.behind))))⟩

/-- The place where the element's name begins. -/
def nameStart : Cursor :=
  ⟨(t.before ++ ['<']).reverse,
    t.name ++ (t.attributes ++ '>' :: (t.body ++ (closingTag t.name ++ t.behind)))⟩

/-- The place where the element's body begins. -/
def bodyStart : Cursor :=
  ⟨(t.before ++ '<' :: t.name ++ t.attributes ++ ['>']).reverse,
    t.body ++ (closingTag t.name ++ t.behind)⟩

/-- The place where the element's body ends. -/
def bodyStop : Cursor :=
  ⟨(t.before ++ '<' :: t.name ++ t.attributes ++ '>' :: t.body).reverse,
    closingTag t.name ++ t.behind⟩

/-- The place behind the element's closing tag. -/
def stop : Cursor :=
  ⟨(t.before ++ '<' :: t.name ++ t.attributes ++ '>' :: t.body ++ closingTag t.name).reverse,
    t.behind⟩

theorem text_start : t.start.text = t.text := by simp [start, text, Cursor.text]

theorem next_start : t.start.next = t.nameStart := by simp [start, nameStart, next]

theorem leads_bodyStart : t.nameStart.Leads (t.name ++ t.attributes ++ ['>']) t.bodyStart :=
  ⟨by simp [nameStart, bodyStart], by simp [nameStart, bodyStart]⟩

theorem leads_bodyStop : t.bodyStart.Leads t.body t.bodyStop :=
  ⟨by simp [bodyStart, bodyStop], by simp [bodyStart, bodyStop]⟩

theorem leads_stop : t.bodyStop.Leads (closingTag t.name) t.stop :=
  ⟨by simp [bodyStop, stop], by simp [bodyStop, stop]⟩

/-! ### Where the closing sequences are -/

variable {t} {m : Cursor}

theorem not_mem_closer {u : Text} (hu : IsCloser t.name u) : '>' ∉ u := by
  obtain ⟨-, hgt, -, -⟩ := of_mem_scriptTags t.name_mem
  rcases hu with rfl | rfl
  · simpa using hgt
  · simp

/-- Behind the opening tag, a closer reaches back to its attributes at most, and
it is not a lone slash. -/
theorem closer_suffix_iff {u : Text} (hu : IsCloser t.name u) :
    u <:+ t.before ++ '<' :: t.name ++ t.attributes ↔
      u = '<' :: '/' :: t.name ∧ u <:+ t.attributes := by
  obtain ⟨hlt, -, hslash, hne⟩ := of_mem_scriptTags t.name_mem
  have hpos := List.length_pos_iff.2 hne
  have hattr : t.attributes <:+ t.name ++ t.attributes := List.suffix_append _ _
  have hname : t.name ++ t.attributes <:+ t.before ++ '<' :: t.name ++ t.attributes :=
    ⟨t.before ++ ['<'], by simp⟩
  constructor
  · intro h
    rcases hu with rfl | rfl
    · refine ⟨rfl, ?_⟩
      -- the slash is in the attributes, so there is room for the `<` in them
      have hback : '/' :: t.name <:+ t.before ++ '<' :: (t.name ++ t.attributes) := by
        simpa using (List.suffix_cons _ _).trans h
      have htail : '/' :: t.name <:+ t.attributes :=
        Text.cons_suffix_of_not_mem hslash
          (Text.suffix_of_suffix_of_not_mem (by simpa using hlt) hback)
      have hlen := htail.length_le
      have hin := List.suffix_of_suffix_length_le h hname (by simp at hlen ⊢; omega)
      exact Text.cons_suffix_of_not_mem hlt hin
    · have hin := List.suffix_of_suffix_length_le h hname (by simp; omega)
      exact absurd (Text.cons_suffix_of_not_mem hslash hin) t.attributes_end
  · rintro ⟨-, h⟩
    exact h.trans (hattr.trans hname)

theorem not_ends_of_lt_bodyStart (h : t.nameStart ≤ m) (hlt : m < t.bodyStart) :
    ¬ Ends t.name m := by
  obtain ⟨-, hgt, -, -⟩ := of_mem_scriptTags t.name_mem
  have hmem : '>' ∉ t.name ++ t.attributes := by simp [hgt, t.attributes_open]
  obtain ⟨s, hs, hmem⟩ := exists_leads_of_lt t.leads_bodyStart hmem h hlt
  have hm : m.before.reverse = t.before ++ '<' :: s := by simp [hs.behind, nameStart]
  rw [ends_iff, hm]
  rintro ⟨u, -, hu⟩
  exact Text.not_suffix_of_not_mem (by simp) (by simpa using hmem) hu

theorem ends_bodyStart_iff :
    Ends t.name t.bodyStart ↔ '<' :: '/' :: t.name <:+ t.attributes := by
  have hm : t.bodyStart.before.reverse =
      (t.before ++ '<' :: t.name ++ t.attributes) ++ ['>'] := by simp [bodyStart]
  rw [ends_iff, hm]
  simp only [List.suffix_append_self_iff]
  constructor
  · rintro ⟨u, hu, h⟩
    obtain ⟨rfl, h⟩ := (closer_suffix_iff hu).1 h
    exact h
  · intro h
    have hu : IsCloser t.name ('<' :: '/' :: t.name) := .inl rfl
    exact ⟨_, hu, (closer_suffix_iff hu).2 ⟨rfl, h⟩⟩

/-- In the body only `/>` ends the element, since its closing tag is not there. -/
theorem ends_iff_of_leads {s r : Text} (hbody : t.body = s ++ r) (hne : s ≠ [])
    (h : t.bodyStart.Leads s m) : Ends t.name m ↔ "/>".toList <:+ s := by
  have hm : m.before.reverse =
      (t.before ++ '<' :: t.name ++ t.attributes) ++ '>' :: s := by simp [h.behind, bodyStart]
  rw [ends_iff, hm]
  constructor
  · rintro ⟨u, hu, hin⟩
    -- the sequence does not reach back over the `>` of the opening tag
    have hin := Text.concat_suffix_of_suffix hne (not_mem_closer hu) hin
    rcases hu with rfl | rfl
    · refine absurd ?_ t.body_open
      have : closingTag t.name = '<' :: '/' :: t.name ++ ['>'] := by simp [closingTag]
      rw [this, hbody]
      exact hin.isInfix.trans (List.prefix_append s r).isInfix
    · exact hin
  · intro hin
    have hs : s <:+ (t.before ++ '<' :: t.name ++ t.attributes) ++ '>' :: s :=
      (List.suffix_cons '>' s).trans (List.suffix_append _ _)
    exact ⟨['/'], .inr rfl, hin.trans hs⟩

theorem not_ends_of_lt_stop (h : t.bodyStop < m) (hlt : m < t.stop) : ¬ Ends t.name m := by
  obtain ⟨-, hgt, -, -⟩ := of_mem_scriptTags t.name_mem
  have hmem : '>' ∉ '<' :: '/' :: t.name := by simpa using hgt
  obtain ⟨s, hs, hmem⟩ := exists_leads_of_lt t.leads_stop hmem h.le hlt
  have hm : m.before.reverse = t.bodyStop.before.reverse ++ s := by simp [hs.behind]
  rw [ends_iff, hm]
  rintro ⟨u, -, hu⟩
  exact Text.not_suffix_of_not_mem (hs.lt_iff.1 h) hmem hu

theorem bodyStop_lt_stop : t.bodyStop < t.stop := t.leads_stop.lt_iff.2 (by simp [closingTag])

theorem ends_stop : Ends t.name t.stop := by
  have hm : t.stop.before.reverse = t.bodyStop.before.reverse ++ closingTag t.name := by
    simp [stop, bodyStop]
  refine ends_iff.2 ⟨_, .inl rfl, ?_⟩
  rw [hm]
  exact List.suffix_append _ _

/-- The element ends behind its closing tag, unless its opening tag or its body
holds a sequence that ends it before. -/
theorem closeIgnored_eq_stop_iff :
    closeIgnored t.name t.nameStart = .ok t.stop ↔
      ¬ "/>".toList <:+: t.body ∧ ¬ '<' :: '/' :: t.name <:+ t.attributes := by
  have hstart := t.leads_bodyStart.le
  have hbody := t.leads_bodyStop.le
  have hstop := t.bodyStop_lt_stop
  rw [closeIgnored_eq_ok_iff]
  constructor
  · rintro ⟨-, -, hmin⟩
    refine ⟨?_, ?_⟩
    · rintro ⟨x, y, hxy⟩
      have hleads := t.leads_bodyStop
      rw [← hxy] at hleads
      obtain ⟨m, hm, hm'⟩ := hleads.exists_between
      have hends := (ends_iff_of_leads hxy.symm (by simp) hm).2 (List.suffix_append _ _)
      exact (hmin m (hstart.trans hm.le) hends).not_gt (hm'.le.trans_lt hstop)
    · intro hclose
      exact (hmin _ hstart (ends_bodyStart_iff.2 hclose)).not_gt (hbody.trans_lt hstop)
  · rintro ⟨hslash, hclose⟩
    refine ⟨hstart.trans (hbody.trans hstop.le), ends_stop, fun m hm hends => ?_⟩
    rcases lt_or_le_of_le (hstart.trans (hbody.trans hstop.le)) hm with hlt | hle
    · exfalso
      -- no place on the way ends the element: not in the opening tag, not where the body
      -- begins, not in the body, and not in the closing tag
      rcases lt_or_le_of_le hstart hm with hin | hin
      · exact not_ends_of_lt_bodyStart hm hin hends
      rcases hin.eq_or_lt with rfl | hin
      · exact hclose (ends_bodyStart_iff.1 hends)
      rcases lt_or_le_of_le hin.le hbody with hout | hle
      · exact not_ends_of_lt_stop hout hlt hends
      · obtain ⟨s, r, hsr, hs, -⟩ := t.leads_bodyStop.split_of_le hin.le hle
        have hsuf := (ends_iff_of_leads hsr (hs.lt_iff.1 hin) hs).1 hends
        exact hslash (hsr ▸ hsuf.isInfix.trans (List.prefix_append s r).isInfix)
    · exact hle

theorem exists_closeIgnored_eq_ok : ∃ d, closeIgnored t.name t.nameStart = .ok d := by
  have hle := (t.leads_bodyStart.trans (t.leads_bodyStop.trans t.leads_stop)).le
  rw [closeIgnored]
  cases hend : endOf [closingTag t.name, "/>".toList] t.nameStart with
  | some d => exact ⟨d, rfl⟩
  | none => exact absurd ends_stop (endOf_eq_none_iff.1 hend t.stop hle)

/-! ### The element in the lexing -/

/-- A lexer that enters a tag where the element begins takes the element as one
segment. -/
theorem exists_ignored (h : Enters t.text t.before.byteLength) :
    ∃ earlier stop later,
      (lex scriptTags t.text).segments = earlier ++ .ignored t.name t.start stop :: later ∧
      closeIgnored t.name t.nameStart = .ok stop ∧
      Reading scriptTags stop later (lex scriptTags t.text).failure := by
  obtain ⟨l, hl, hin, hstart⟩ := h
  obtain ⟨d, start, earlier, rest, hsegs, hd, hrest, htag, ho⟩ :=
    (reading_lex scriptTags t.text).enters (Lexer.between_new t.text scriptTags) hl hin
  have hle := hd.trans (tagFrom_eq_some_iff.1 htag).1
  have htext : start.text = t.start.text := (text_eq_of_le hle).trans t.text_start.symm
  obtain rfl : start = t.start := by
    refine eq_of_offset_eq htext (ho.symm.trans (hstart.trans ?_))
    simp [ElementText.start, offset]
  have hname : elementAt scriptTags t.start.next = some t.name := by
    rw [t.next_start]
    exact elementAt_of_mem t.name_mem _ _
  obtain ⟨stop, hstop⟩ := t.exists_closeIgnored_eq_ok
  rw [← t.next_start] at hstop
  generalize (lex scriptTags t.text).failure = f at hrest ⊢
  -- the step of the reading at this tag start can only be the one of an element that ends
  cases hrest with
  | finish hnone => simp [htag] at hnone
  | elementFails htag' hname' he =>
    obtain rfl := Option.some.inj (htag.symm.trans htag')
    obtain rfl := Option.some.inj (hname.symm.trans hname')
    simp [hstop] at he
  | element htag' hname' hstop' hlater =>
    obtain rfl := Option.some.inj (htag.symm.trans htag')
    obtain rfl := Option.some.inj (hname.symm.trans hname')
    exact ⟨earlier, _, _, hsegs, t.next_start ▸ hstop', hlater⟩
  | tagFails htag' hname' _ | tag htag' hname' _ _ _ =>
    obtain rfl := Option.some.inj (htag.symm.trans htag')
    simp [hname] at hname'

variable {earlier later : List Segment}

variable (t earlier later) in
/-- The lexing takes the element as a whole, between earlier and later segments. -/
structure Skipped : Prop where
  segments_eq :
    (lex scriptTags t.text).segments = earlier ++ .ignored t.name t.start t.stop :: later
  reading : Reading scriptTags t.stop later (lex scriptTags t.text).failure

/-- No other segment overlaps with the body of the element. -/
theorem Skipped.violation_apart (h : t.Skipped earlier later) {s : Segment}
    (hs : s ∈ (lex scriptTags t.text).segments) (hne : s ≠ .ignored t.name t.start t.stop)
    {v : Violation} (hv : v.Marks (s.start.upTo s.stop) s.start.offset) :
    v.offset + v.text.byteLength ≤ t.bodyStart.offset ∨ t.bodyStop.offset ≤ v.offset := by
  have hread := reading_lex scriptTags t.text
  have hmem : .ignored t.name t.start t.stop ∈ (lex scriptTags t.text).segments := by
    simp [h.segments_eq]
  have hstart : t.start ≤ t.bodyStart := by
    have hnext := le_next t.start
    rw [next_start] at hnext
    exact hnext.trans t.leads_bodyStart.le
  rw [hv.text_eq, hv.offset_eq, ← (leads_upTo (hread.ahead hs).2).offset_eq]
  rcases hread.apart hs hmem hne with hapart | hapart
  · exact .inl (offset_le_of_le (hapart.trans hstart))
  · exact .inr (offset_le_of_le (t.bodyStop_lt_stop.le.trans hapart))

theorem Skipped.bodyStop_le_failure (h : t.Skipped earlier later) {e : ScanError}
    (hf : (lex scriptTags t.text).failure = some e) : t.bodyStop.offset ≤ e.offset := by
  have hread := h.reading
  rw [hf] at hread
  exact Nat.le_trans (offset_le_of_le t.bodyStop_lt_stop.le) hread.le_failure

theorem Skipped.silentOn_hardcodedStrings (h : t.Skipped earlier later) :
    SilentOn t.bodyStart.offset t.bodyStop.offset (hardcodedStrings t.text) := by
  rw [hardcodedStrings_eq]
  cases hf : (lex scriptTags t.text).failure with
  | some e => exact ⟨e, rfl, .inr (h.bodyStop_le_failure hf)⟩
  | none =>
    refine silentOn_violationsAt upTo_ne_nil_of_mem_literalRuns ?_
    rintro ⟨a, b⟩ hab v hv
    exact h.violation_apart (mem_literalRuns_iff.1 hab).1 (by simp) hv

theorem Skipped.silentOn_inlineStyleTags_iff (h : t.Skipped earlier later) :
    SilentOn t.bodyStart.offset t.bodyStop.offset (inlineStyleTags t.text) ↔
      ∀ e, styledTags earlier = .error e →
        e.offset < t.bodyStart.offset ∨ t.bodyStop.offset ≤ e.offset := by
  have hskip : styledTags (.ignored t.name t.start t.stop :: later) = styledTags later := rfl
  have hall := styledTags_append earlier (.ignored t.name t.start t.stop :: later)
  rw [← h.segments_eq, hskip] at hall
  rw [inlineStyleTags_eq]
  cases hearlier : styledTags earlier with
  | error e =>
    rw [hall, hearlier]
    constructor
    · rintro ⟨s, hs, ho⟩ e' he'
      obtain rfl := Except.error.inj he'
      obtain rfl := AuditError.scan.inj hs
      exact ho
    · exact fun ho => ⟨e, rfl, ho e rfl⟩
  | ok found =>
    refine ⟨fun _ e he => (nomatch he), fun _ => ?_⟩
    -- what fails now fails behind the element
    rcases styledTags_cases later with ⟨e, start, stop, he, hs, hbad⟩ | ⟨more, hmore, -⟩
    · rw [hall, hearlier, he]
      have hstart := t.bodyStop_lt_stop.le.trans (h.reading.ahead hs).1
      exact ⟨e, rfl, .inr (Nat.le_trans (offset_le_of_le hstart) (le_of_isStyled_eq_error hbad))⟩
    · rw [hearlier, hmore] at hall
      rw [hall]
      cases hf : (lex scriptTags t.text).failure with
      | some e => exact ⟨e, rfl, .inr (h.bodyStop_le_failure hf)⟩
      | none =>
        refine silentOn_violationsAt (upTo_ne_nil_of_mem_styledTags hall) ?_
        rintro ⟨a, b⟩ hab v hv
        rcases styledTags_cases (lex scriptTags t.text).segments with
          ⟨e, -, -, he, -⟩ | ⟨found', hfound', hiff⟩
        · simp [hall] at he
        · obtain rfl := Except.ok.inj (hall.symm.trans hfound')
          exact h.violation_apart ((hiff a b).1 hab).1 (by simp) hv

/-- **An ignored element is taken up to its closing tag if and only if neither
its opening tag nor its body holds what ends it before.** If it is, the finder of
literal text is silent on its body, and the finder of inline styles is so if and
only if no tag before the element fails to be judged there. -/
theorem ignored_stop_iff (t : ElementText) (h : Enters t.text t.before.byteLength) :
    ∃ earlier stop later,
      (lex scriptTags t.text).segments = earlier ++ .ignored t.name t.start stop :: later ∧
      (stop = t.stop ↔
        ¬ "/>".toList <:+: t.body ∧ ¬ '<' :: '/' :: t.name <:+ t.attributes) ∧
      (stop = t.stop →
        SilentOn t.bodyStart.offset t.bodyStop.offset (hardcodedStrings t.text) ∧
        (SilentOn t.bodyStart.offset t.bodyStop.offset (inlineStyleTags t.text) ↔
          ∀ e, styledTags earlier = .error e →
            e.offset < t.bodyStart.offset ∨ t.bodyStop.offset ≤ e.offset)) := by
  obtain ⟨earlier, stop, later, hsegs, hclose, hlater⟩ := exists_ignored h
  refine ⟨earlier, stop, later, hsegs, ?_, ?_⟩
  · rw [← closeIgnored_eq_stop_iff, hclose, Except.ok.injEq]
  · rintro rfl
    have hskip : t.Skipped earlier later := ⟨hsegs, hlater⟩
    exact ⟨hskip.silentOn_hardcodedStrings, hskip.silentOn_inlineStyleTags_iff⟩

-- the output tag in the expression ends nowhere, and its search meets the brace in the body
example : inlineStyleTags "<a \x7b<isprint <b \x7d><script>\x7b</script>".toList =
    .error (.scan (.unterminatedScope '\x7b' 26)) := by decide +kernel

/-- A script with a tag in a string. -/
def tagInString : ElementText where
  before := "1 < 2".toList
  name := "script".toList
  attributes := " src='<a'".toList
  body := "b='<p style=\"x\">';".toList
  behind := "z".toList
  name_mem := by decide
  attributes_open := by decide
  attributes_end := by decide
  body_open := by decide

/-- A script with a tag in a string is skipped as a whole. -/
theorem ignored_stop_iff_of_tagInString :
    tagInString.text = "1 < 2<script src='<a'>b='<p style=\"x\">';</script>z".toList ∧
    (∃ later, (lex scriptTags tagInString.text).segments =
      .ignored "script".toList tagInString.start tagInString.stop :: later) ∧
    SilentOn 22 40 (hardcodedStrings tagInString.text) ∧
    SilentOn 22 40 (inlineStyleTags tagInString.text) := by
  have henter : Enters tagInString.text 5 :=
    ⟨(Lexer.new tagInString.text scriptTags).enterTag 6, .single (by decide +kernel),
      by decide +kernel, by decide +kernel⟩
  obtain ⟨earlier, stop, later, hsegs, hstop, hsilent⟩ := ignored_stop_iff tagInString henter
  obtain rfl : stop = tagInString.stop := hstop.2 (by decide)
  obtain ⟨hliteral, hstyle⟩ := hsilent rfl
  obtain rfl : earlier = [] := by
    have hlen : (lex scriptTags tagInString.text).segments.length = 1 := by decide +kernel
    rw [hsegs, List.length_append, List.length_cons] at hlen
    exact List.length_eq_zero_iff.1 (by omega)
  exact ⟨by decide, ⟨later, hsegs⟩, hliteral, hstyle.2 fun e he => nomatch he⟩

/-- A script with an empty tag in a string. -/
def emptyTagInString : ElementText where
  before := []
  name := "script".toList
  attributes := []
  body := "a='<br/><b style=\"x\">';".toList
  behind := []
  name_mem := by decide
  attributes_open := by decide
  attributes_end := by decide
  body_open := by decide

/-- An empty tag in a string ends the script, and the rest of its body is read
as markup. -/
theorem ignored_ends_in_body :
    emptyTagInString.text = "<script>a='<br/><b style=\"x\">';</script>".toList ∧
    Enters emptyTagInString.text 0 ∧
    emptyTagInString.bodyStart.offset = 8 ∧ emptyTagInString.bodyStop.offset = 31 ∧
    emptyTagInString.stop.offset = 40 ∧
    ((lex scriptTags emptyTagInString.text).segments.head?.map fun s =>
      (s.start.offset, s.stop.offset)) = some (0, 16) ∧
    hardcodedStrings emptyTagInString.text = .ok [⟨"';".toList, 29, none, by decide⟩] ∧
    inlineStyleTags emptyTagInString.text =
      .ok [⟨"<b style=\"x\">".toList, 16, none, by decide⟩] := by
  refine ⟨by decide, ?_, by decide, by decide, by decide, by decide +kernel, by decide +kernel,
    by decide +kernel⟩
  exact ⟨(Lexer.new emptyTagInString.text scriptTags).enterTag 1, .single (by decide +kernel),
    by decide +kernel, by decide +kernel⟩

end ElementText

end CartridgeAudit.Markup
