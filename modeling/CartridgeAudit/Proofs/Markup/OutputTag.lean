/-
CartridgeAudit/Proofs/Markup/OutputTag.lean

Output tags, wherever they stand in a template.

The finder of output tags goes from place to place and passes over each output
tag as a whole.  `OutputReading` says once what a step of it can do: nothing at
the end, pass over a character where no output tag begins, stop at an output tag
without an end, or take an output tag and go on behind it.  That the tags it
takes stand one behind the other, and that no output tag begins outside them, is
shown by induction on it (`OutputReading.pairwise`, `OutputReading.covers`).

The same walk by byte offsets is `Walks`, and it says where the finder fails: at
the output tag without an end that the walk comes to (`OutputReading.fails_iff`).

Main result: `outputTags_spans`.
-/
import CartridgeAudit.Proofs.Markup.Finding
import CartridgeAudit.Proofs.Markup.Lexer
import CartridgeAudit.Proofs.Text.Parts

namespace CartridgeAudit.Markup

open Cursor

/-! ### The end of a tag by its offset -/

/-- By offsets, a tag is closed as it is by places. -/
theorem tagEnd_offset (name : Cursor) (h : 0 < name.offset) :
    tagEnd name.text name.offset = (closeTag name).map (·.offset) := by
  have hmax : max name.offset 1 = name.offset := by omega
  rw [tagEnd, Text.seek_offset, closeTag]
  simp only [decide_true, Bool.true_and, hmax]
  split <;> rfl

/-! ### Steps of the finder -/

/-- How an output tag begins. -/
def outputHead : Text := '<' :: outputTag

/-- What the finder of output tags does from a place on. -/
inductive OutputReading : Cursor → Except ScanError (List (Cursor × Cursor)) → Prop
  | finish (before : Text) : OutputReading ⟨before, []⟩ (.ok [])
  | pass {before xs : Text} {x : Char} {r : Except ScanError (List (Cursor × Cursor))} :
      outputHead.isPrefixOf (x :: xs) = false → OutputReading ⟨x :: before, xs⟩ r →
      OutputReading ⟨before, x :: xs⟩ r
  | fails {c : Cursor} {e : ScanError} :
      c.startsWith outputHead = true → closeTag c.next = .error e → OutputReading c (.error e)
  | take {c stop : Cursor} {r : Except ScanError (List (Cursor × Cursor))} :
      c.startsWith outputHead = true → closeTag c.next = .ok stop → OutputReading stop r →
      OutputReading c (r.map ((c, stop) :: ·))

/-- The characters of a tag are passed over. -/
theorem outputTagsFrom_of_leads {c d : Cursor} {s : Text} (h : c.Leads s d) :
    outputTagsFrom s.length c.before c.after = outputTagsFrom 0 d.before d.after := by
  induction s generalizing c with
  | nil =>
    obtain rfl := leads_nil_iff.1 h
    rfl
  | cons x s ih =>
    obtain ⟨before, after⟩ := c
    obtain ⟨xs, rfl, hrest⟩ := leads_cons_iff.1 h
    rw [List.length_cons, outputTagsFrom]
    exact ih hrest

theorem outputReading (c : Cursor) : OutputReading c (outputTagsFrom 0 c.before c.after) := by
  induction hn : c.after.length using Nat.strongRecOn generalizing c with
  | _ n ih =>
    obtain ⟨before, _ | ⟨x, xs⟩⟩ := c
    · exact .finish before
    · have hxs : xs.length < n := hn ▸ Nat.lt_succ_self _
      have hhead : (decide (x = '<') && outputTag.isPrefixOf xs) =
          outputHead.isPrefixOf (x :: xs) := by
        rw [outputHead, List.isPrefixOf_cons_cons, Bool.beq_eq_decide_eq]
        exact congrArg (· && _) (decide_eq_decide.2 eq_comm)
      rw [outputTagsFrom, hhead]
      cases hstart : outputHead.isPrefixOf (x :: xs) with
      | false => exact .pass hstart (ih _ hxs ⟨x :: before, xs⟩ rfl)
      | true =>
        cases hclose : closeTag ⟨x :: before, xs⟩ with
        | error e => exact .fails hstart hclose
        | ok stop =>
          obtain ⟨s, hs⟩ := le_of_closeTag hclose
          have hlen := congrArg List.length hs.ahead
          rw [List.length_append] at hlen
          have hdistance : distance ⟨before, x :: xs⟩ stop - 1 = s.length := by
            rw [((Leads.cons before x xs).trans hs).distance_eq, List.length_append]
            exact Nat.add_sub_cancel_left 1 s.length
          have hrest := outputTagsFrom_of_leads hs
          have htake := OutputReading.take (c := ⟨before, x :: xs⟩) hstart hclose
            (ih _ (by simp only at hlen; omega) stop rfl)
          simp only [if_true, hdistance, hrest]
          cases hr : outputTagsFrom 0 stop.before stop.after <;> rw [hr] at htake <;> exact htake

/-! ### What is found -/

section

variable {c : Cursor} {found : List (Cursor × Cursor)}

theorem startsWith_outputHead_iff {before xs : Text} {x : Char} :
    startsWith ⟨before, x :: xs⟩ outputHead = true ↔ x = '<' ∧ outputTag <+: xs := by
  rw [startsWith, outputHead, List.isPrefixOf_iff_prefix, List.cons_prefix_cons, eq_comm]

/-- The name of an output tag begins one byte behind its `<`. -/
theorem next_of_outputHead (h : c.startsWith outputHead = true) :
    c < c.next ∧ c.next.offset = c.offset + 1 := by
  obtain ⟨before, _ | ⟨x, xs⟩⟩ := c
  · cases h
  · obtain ⟨rfl, -⟩ := startsWith_outputHead_iff.1 h
    exact ⟨lt_cons before '<' xs, offset_ascii_cons (by decide) before xs⟩

/-- The finder takes output tags with their ends, and they lie ahead. -/
theorem OutputReading.ahead (h : OutputReading c (.ok found)) : ∀ s ∈ found,
    c ≤ s.1 ∧ s.1 < s.2 ∧ s.1.startsWith outputHead = true ∧ closeTag s.1.next = .ok s.2 := by
  generalize hr : Except.ok found = r at h
  induction h generalizing found with
  | finish =>
    obtain rfl := Except.ok.inj hr
    exact List.forall_mem_nil _
  | @pass before xs x r hno _ ih =>
    intro s hs
    obtain ⟨hle, hrest⟩ := ih hr s hs
    exact ⟨(lt_cons before x xs).le.trans hle, hrest⟩
  | fails => cases hr
  | @take c stop r hstart hstop _ ih =>
    cases r with
    | error e => cases hr
    | ok rest =>
      obtain rfl := Except.ok.inj hr
      have hlt : c < stop := (next_of_outputHead hstart).1.trans_le (le_of_closeTag hstop)
      refine List.forall_mem_cons.2 ⟨⟨le_rfl, hlt, hstart, hstop⟩, fun s hs => ?_⟩
      obtain ⟨hle, hrest⟩ := ih rfl s hs
      exact ⟨hlt.le.trans hle, hrest⟩

/-- Output tags are found one behind the other. -/
theorem OutputReading.pairwise (h : OutputReading c (.ok found)) :
    found.Pairwise fun s s' => s.2 ≤ s'.1 := by
  generalize hr : Except.ok found = r at h
  induction h generalizing found with
  | finish =>
    obtain rfl := Except.ok.inj hr
    exact .nil
  | pass _ _ ih => exact ih hr
  | fails => cases hr
  | @take c stop r _ _ hrest ih =>
    cases r with
    | error e => cases hr
    | ok rest =>
      obtain rfl := Except.ok.inj hr
      exact .cons (fun s hs => (hrest.ahead s hs).1) (ih rfl)

/-- No output tag begins outside those that are found. -/
theorem OutputReading.covers (h : OutputReading c (.ok found)) {m : Cursor} (hm : c ≤ m)
    (hstart : m.startsWith outputHead = true) : ∃ s ∈ found, s.1 ≤ m ∧ m < s.2 := by
  generalize hr : Except.ok found = r at h
  induction h generalizing found with
  | finish before =>
    obtain rfl := nil_le_iff.1 hm
    cases hstart
  | pass hno _ ih =>
    rcases cons_le_iff.1 hm with rfl | hm
    · simp [startsWith, hno] at hstart
    · exact ih hm hr
  | fails => cases hr
  | @take c stop r hhead hstop _ ih =>
    cases r with
    | error e => cases hr
    | ok rest =>
      obtain rfl := Except.ok.inj hr
      have hle := (le_next c).trans (le_of_closeTag hstop)
      -- the place is in this tag or behind it
      rcases lt_or_le_of_le hle hm with hin | hbehind
      · exact ⟨(c, stop), List.mem_cons_self, hm, hin⟩
      · obtain ⟨s, hs, haround⟩ := ih hbehind rfl
        exact ⟨s, List.mem_cons_of_mem _ hs, haround⟩

end

/-! ### The walk by offsets -/

/-- An output tag begins at a byte offset. -/
def OutputTagAt (text : Text) (o : Nat) : Prop :=
  ∃ s r, text = s ++ (outputHead ++ r) ∧ s.byteLength = o

/-- A walk from one byte offset comes to another. It goes from byte to byte, and
over an output tag at once. -/
inductive Walks (text : Text) : Nat → Nat → Prop
  | here (i : Nat) : Walks text i i
  | next {i p : Nat} :
      i < text.byteLength → ¬ OutputTagAt text i → Walks text (i + 1) p → Walks text i p
  | output {i j p : Nat} :
      OutputTagAt text i → tagEnd text (i + 1) = .ok j → Walks text j p → Walks text i p

/-- A walk comes to an output tag whose end is not found. -/
def WalkFails (text : Text) (i p : Nat) (e : ScanError) : Prop :=
  Walks text i p ∧ OutputTagAt text p ∧ tagEnd text (p + 1) = .error e

theorem outputTagAt_iff {text : Text} {o : Nat} :
    OutputTagAt text o ↔
      ∃ m : Cursor, m.text = text ∧ m.offset = o ∧ m.startsWith outputHead = true := by
  simp only [OutputTagAt, startsWith, List.isPrefixOf_iff_prefix]
  constructor
  · rintro ⟨s, r, rfl, rfl⟩
    exact ⟨⟨s.reverse, outputHead ++ r⟩, by simp [Cursor.text], by simp [offset],
      List.prefix_append _ r⟩
  · rintro ⟨⟨before, after⟩, rfl, rfl, r, rfl⟩
    exact ⟨before.reverse, r, rfl, by simp [offset]⟩

theorem outputTagAt_offset (c : Cursor) :
    OutputTagAt c.text c.offset ↔ c.startsWith outputHead = true := by
  rw [outputTagAt_iff]
  constructor
  · rintro ⟨m, hm, ho, hstart⟩
    rwa [← eq_of_offset_eq hm ho]
  · exact fun h => ⟨c, rfl, rfl, h⟩

section

variable {text : Text} {i p : Nat} {e : ScanError}

theorem walkFails_next_iff (hi : i < text.byteLength) (h : ¬ OutputTagAt text i) :
    WalkFails text i p e ↔ WalkFails text (i + 1) p e := by
  constructor
  · rintro ⟨hw, htag, he⟩
    cases hw with
    | here => exact absurd htag h
    | next _ _ hw => exact ⟨hw, htag, he⟩
    | output htag' _ _ => exact absurd htag' h
  · rintro ⟨hw, htag, he⟩
    exact ⟨.next hi h hw, htag, he⟩

theorem walkFails_output_iff {j : Nat} (h : OutputTagAt text i) (hj : tagEnd text (i + 1) = .ok j) :
    WalkFails text i p e ↔ WalkFails text j p e := by
  constructor
  · rintro ⟨hw, htag, he⟩
    cases hw with
    | here => simp [hj] at he
    | next _ hno _ => exact absurd h hno
    | output _ hj' hw =>
      obtain rfl := Except.ok.inj (hj.symm.trans hj')
      exact ⟨hw, htag, he⟩
  · rintro ⟨hw, htag, he⟩
    exact ⟨.output h hj hw, htag, he⟩

theorem walkFails_here_iff {e' : ScanError} (h : OutputTagAt text i)
    (he : tagEnd text (i + 1) = .error e') : WalkFails text i p e ↔ p = i ∧ e = e' := by
  constructor
  · rintro ⟨hw, -, hp⟩
    cases hw with
    | here => exact ⟨rfl, Except.error.inj (hp.symm.trans he)⟩
    | next _ hno _ => exact absurd h hno
    | output _ hj _ => simp [he] at hj
  · rintro ⟨rfl, rfl⟩
    exact ⟨.here p, h, he⟩

theorem not_walkFails_at_end (before : Text) :
    ¬ WalkFails (Cursor.text ⟨before, []⟩) (offset ⟨before, []⟩) p e := by
  have hno : ¬ OutputTagAt (Cursor.text ⟨before, []⟩) (offset ⟨before, []⟩) := by
    rw [outputTagAt_offset]
    exact Bool.false_ne_true
  rintro ⟨hw, htag, -⟩
  cases hw with
  | here => exact hno htag
  | next hi _ _ => simp [offset, Cursor.text] at hi
  | output htag' _ _ => exact hno htag'

/-- Over the bytes of a character where no output tag begins, the walk goes on. -/
theorem walkFails_cons_iff {before xs : Text} {x : Char}
    (h : outputHead.isPrefixOf (x :: xs) = false) :
    WalkFails (Cursor.text ⟨before, x :: xs⟩) (offset ⟨before, x :: xs⟩) p e ↔
      WalkFails (Cursor.text ⟨before, x :: xs⟩) (offset ⟨x :: before, xs⟩) p e := by
  have ho := (Leads.cons before x xs).offset_eq
  have hlen := (⟨x :: before, xs⟩ : Cursor).offset_le_byteLength
  rw [(Leads.cons before x xs).text_eq] at hlen
  have hno : ∀ k, offset ⟨before, x :: xs⟩ ≤ k → k < offset ⟨x :: before, xs⟩ →
      ¬ OutputTagAt (Cursor.text ⟨before, x :: xs⟩) k := by
    intro k hk hkx htag
    obtain ⟨m, hm, rfl, hstart⟩ := outputTagAt_iff.1 htag
    rcases cons_le_iff.1 ((le_iff_offset_le hm.symm).2 hk) with rfl | hm
    · simp [startsWith, h] at hstart
    · have := offset_le_of_le hm
      omega
  -- byte by byte up to the next character
  have hbytes : ∀ n, offset ⟨before, x :: xs⟩ + n ≤ offset ⟨x :: before, xs⟩ →
      (WalkFails (Cursor.text ⟨before, x :: xs⟩) (offset ⟨before, x :: xs⟩) p e ↔
        WalkFails (Cursor.text ⟨before, x :: xs⟩) (offset ⟨before, x :: xs⟩ + n) p e) := by
    intro n
    induction n with
    | zero => exact fun _ => Iff.rfl
    | succ n ih =>
      intro hn
      refine (ih (by omega)).trans (walkFails_next_iff (by omega) (hno _ ?_ ?_))
      · exact Nat.le_add_right _ n
      · omega
  rw [ho]
  exact hbytes _ ho.ge

end

/-- **The finder fails** if and only if the walk comes to an output tag whose end
is not found. -/
theorem OutputReading.fails_iff {c : Cursor} {r : Except ScanError (List (Cursor × Cursor))}
    (h : OutputReading c r) (e : ScanError) :
    r = .error e ↔ ∃ p, WalkFails c.text c.offset p e := by
  induction h with
  | finish before => simp [not_walkFails_at_end]
  | @pass before xs x r hno _ ih =>
    rw [ih, (Leads.cons before x xs).text_eq]
    simp only [walkFails_cons_iff hno]
  | @fails c e' hstart hclose =>
    obtain ⟨-, ho⟩ := next_of_outputHead hstart
    have hend := tagEnd_offset c.next (by omega)
    rw [hclose, text_next, ho] at hend
    simp only [walkFails_here_iff ((outputTagAt_offset c).2 hstart) hend]
    simp [eq_comm]
  | @take c stop r hstart hclose _ ih =>
    obtain ⟨-, ho⟩ := next_of_outputHead hstart
    have hend := tagEnd_offset c.next (by omega)
    rw [hclose, text_next, ho] at hend
    simp only [walkFails_output_iff ((outputTagAt_offset c).2 hstart) hend]
    rw [text_eq_of_le ((le_next c).trans (le_of_closeTag hclose))] at ih
    rw [← ih]
    cases r <;> simp [Except.map]

/-! ### Spans -/

theorem outputReading_of_eq {text : Text} {found : List (Cursor × Cursor)}
    (h : outputTagsFrom 0 [] text = .ok found) : OutputReading text.start (.ok found) :=
  h ▸ outputReading text.start

theorem OutputReading.upTo_ne_nil {c : Cursor} {found : List (Cursor × Cursor)}
    (h : OutputReading c (.ok found)) : ∀ s ∈ found, s.1.upTo s.2 ≠ [] := by
  intro s hs
  have hlt := (h.ahead s hs).2.1
  exact (leads_upTo hlt.le).lt_iff.1 hlt

/-- The finder makes a violation of every output tag that it takes. -/
theorem outputTags_eq (text : Text) :
    outputTags text =
      match outputTagsFrom 0 [] text with
      | .error e => .error (.scan e)
      | .ok found => found.mapM violationAt := rfl

/-- The head of an output tag lies in a tag that it begins in, since the `>` at
the end of the tag is none of its characters. -/
theorem le_stop_of_outputHead {name m stop : Cursor} (hclose : closeTag name = .ok stop)
    (hm : m < stop) (hstart : m.startsWith outputHead = true) :
    m.offset + outputHead.byteLength ≤ stop.offset := by
  obtain ⟨s, hs⟩ := exists_leads_of_closeTag hclose hm
  rw [startsWith, List.isPrefixOf_iff_prefix, hs.ahead, List.append_assoc] at hstart
  obtain ⟨r, rfl⟩ := Text.prefix_of_prefix_append_cons (by decide) hstart
  rw [hs.offset_eq]
  simp only [Text.byteLength_append]
  omega

/-- How output tags stand in the text that they are found in. -/
structure OutputSpans (text : Text) (found : List Violation) : Prop where
  ordered : found.Pairwise fun v w =>
    v.offset < w.offset ∧ v.offset + v.text.byteLength ≤ w.offset
  head : ∀ v ∈ found, OutputTagAt text v.offset
  tagEnd : ∀ v ∈ found, tagEnd text (v.offset + 1) = .ok (v.offset + v.text.byteLength)
  content : ∀ v ∈ found,
    text.slice? v.offset (v.offset + v.text.byteLength) = some v.text ∧ v.row = none
  covered : ∀ o, OutputTagAt text o → ∃! v, v ∈ found ∧
    v.offset ≤ o ∧ o + outputHead.byteLength ≤ v.offset + v.text.byteLength

/-- One of two spans ends before the other begins. -/
def Apart (v w : Violation) : Prop :=
  v.offset + v.text.byteLength ≤ w.offset ∨ w.offset + w.text.byteLength ≤ v.offset

instance : Std.Symm Apart := ⟨fun _ _ => Or.symm⟩

section

variable {text : Text} {tags : List (Cursor × Cursor)} {found : List Violation}

/-- The text of a violation goes up to where its tag ends. -/
theorem OutputReading.stop_eq {c : Cursor} (h : OutputReading c (.ok tags)) {s : Cursor × Cursor}
    (hs : s ∈ tags) {v : Violation} (hv : v.Marks (s.1.upTo s.2) s.1.offset) :
    v.offset + v.text.byteLength = s.2.offset := by
  rw [hv.offset_eq, hv.text_eq]
  exact (leads_upTo (h.ahead s hs).2.1.le).offset_eq.symm

theorem OutputReading.ordered {c : Cursor} (h : OutputReading c (.ok tags))
    (hfound : tags.mapM violationAt = .ok found) :
    found.Pairwise fun v w => v.offset < w.offset ∧ v.offset + v.text.byteLength ≤ w.offset := by
  refine pairwise_of_mapM_eq_ok hfound h.pairwise ?_
  intro s hs s' _ hss v w hv hw
  have hmarks := Violation.new_eq_ok_iff.1 hv
  rw [h.stop_eq hs hmarks, hmarks.offset_eq, (Violation.new_eq_ok_iff.1 hw).offset_eq]
  exact ⟨offset_lt_of_lt ((h.ahead s hs).2.1.trans_le hss), offset_le_of_le hss⟩

/-- An output tag begins in one violation, and its head lies in that one. -/
theorem OutputReading.covered (h : OutputReading text.start (.ok tags))
    (hfound : tags.mapM violationAt = .ok found) {o : Nat} (ho : OutputTagAt text o) :
    ∃! v, v ∈ found ∧
      v.offset ≤ o ∧ o + outputHead.byteLength ≤ v.offset + v.text.byteLength := by
  obtain ⟨m, hm, rfl, hstart⟩ := outputTagAt_iff.1 ho
  have hle : text.start ≤ m := hm ▸ m.start_le
  obtain ⟨s, hs, hsm, hms⟩ := h.covers hle hstart
  have hin := le_stop_of_outputHead (h.ahead s hs).2.2.2 hms hstart
  obtain ⟨v, hv, hmarks⟩ := exists_violation_of_mem hfound hs
  have hstop := h.stop_eq hs hmarks
  refine ⟨v, ⟨hv, ?_, ?_⟩, ?_⟩
  · rw [hmarks.offset_eq]
    exact offset_le_of_le hsm
  · rwa [hstop]
  · rintro w ⟨hw, hwm, hmw⟩
    by_contra hne
    -- of two violations one ends before the other begins
    have hlen : 0 < outputHead.byteLength := by decide
    have hms := offset_le_of_le hsm
    have hapart : Apart w v :=
      ((h.ordered hfound).imp fun hvw => .inl hvw.2 : found.Pairwise Apart).forall hw hv hne
    rw [Apart, hstop, hmarks.offset_eq] at hapart
    omega

theorem OutputReading.spans (h : OutputReading text.start (.ok tags))
    (hfound : tags.mapM violationAt = .ok found) : OutputSpans text found := by
  have htext : ∀ s ∈ tags, s.1.text = text := fun s hs => text_eq_of_le (h.ahead s hs).1
  refine ⟨h.ordered hfound, ?_, ?_, ?_, fun o => h.covered hfound⟩
  · rintro v hv
    obtain ⟨s, hs, hmarks⟩ := (mem_violationsAt_iff hfound).1 hv
    obtain ⟨-, -, hhead, -⟩ := h.ahead s hs
    rw [← htext s hs, hmarks.offset_eq]
    exact (outputTagAt_offset s.1).2 hhead
  · rintro v hv
    obtain ⟨s, hs, hmarks⟩ := (mem_violationsAt_iff hfound).1 hv
    obtain ⟨-, -, hhead, hclose⟩ := h.ahead s hs
    obtain ⟨-, hnext⟩ := next_of_outputHead hhead
    have hend := tagEnd_offset s.1.next (by omega)
    rw [hclose, text_next, htext s hs, hnext] at hend
    rw [h.stop_eq hs hmarks, hmarks.offset_eq]
    exact hend
  · rintro v hv
    obtain ⟨s, hs, hmarks⟩ := (mem_violationsAt_iff hfound).1 hv
    have hslice := slice?_of_le (h.ahead s hs).2.1.le
    rw [htext s hs] at hslice
    rw [h.stop_eq hs hmarks, hmarks.offset_eq, hmarks.text_eq]
    exact ⟨hslice, hmarks.row_eq⟩

end

/-- **Output tags are found wherever they stand**, each with the end that its tag
has: the violations are disjoint and lie in order, and every place where an
output tag begins lies in exactly one of them.  The finder fails if and only if
the walk over the text, which passes over each output tag as a whole, comes to
one whose end is not found, and it fails as the search for that end does. -/
theorem outputTags_spans (text : Text) :
    (∀ found, outputTags text = .ok found → OutputSpans text found) ∧
      ∀ e, outputTags text = .error e ↔ ∃ p f, WalkFails text 0 p f ∧ e = .scan f := by
  have hread := outputReading text.start
  have hfails := hread.fails_iff
  rw [outputTags_eq]
  simp only [Text.start] at hread hfails
  cases hr : outputTagsFrom 0 [] text with
  | ok tags =>
    rw [hr] at hread hfails
    refine ⟨fun found => hread.spans, fun e => ⟨?_, ?_⟩⟩
    · intro he
      -- no tag is empty
      obtain ⟨found, hfound⟩ := exists_violationsAt hread.upTo_ne_nil
      cases hfound.symm.trans he
    · rintro ⟨p, f, hf, -⟩
      cases (hfails f).2 ⟨p, hf⟩
  | error f =>
    rw [hr] at hfails
    refine ⟨by simp, fun e => ⟨?_, ?_⟩⟩
    · rintro ⟨⟩
      obtain ⟨p, hp⟩ := (hfails f).1 rfl
      exact ⟨p, f, hp, rfl⟩
    · rintro ⟨p, f', hf', rfl⟩
      obtain rfl := Except.error.inj ((hfails f').2 ⟨p, hf'⟩)
      rfl

/-- An output tag in an attribute value and one in a comment. -/
theorem outputTags_spans_inside :
    outputTags "<a b='<isprint c>'><!--<isprint d>-->".toList =
        .ok [⟨"<isprint c>".toList, 6, none, by decide⟩,
          ⟨"<isprint d>".toList, 23, none, by decide⟩] ∧
      OutputSpans "<a b='<isprint c>'><!--<isprint d>-->".toList
        [⟨"<isprint c>".toList, 6, none, by decide⟩,
          ⟨"<isprint d>".toList, 23, none, by decide⟩] :=
  ⟨by decide, (outputTags_spans _).1 _ (by decide)⟩

end CartridgeAudit.Markup
