/-
CartridgeAudit/Proofs/Script/Nesting.lean

Scopes of one kind nest, and so do the bodies of functions.

A scan that stands inside more open scopes ends later (`closeFrom_lt`), and a
scan from an outer delimiter comes past every place before its end with some
number of inner scopes open (`exists_closeFrom_of_le`).  At an inner delimiter
that number is at least one greater than the scan which starts there has, so
the inner scope ends first (`scopeEnd_nested`).

The body of a function is a scope (`Function.Spans`), so any two bodies are the
same, apart, or one is strictly inside the other.  Functions are listed in the
order in which they begin, so the function around a place that begins last is
the last one around it (`enclosing_eq_getLast?`), and by nesting it is the
innermost (`functions_nest`).
-/
import CartridgeAudit.Proofs.Script.Scopes

namespace CartridgeAudit.Script

open Cursor Pattern Regex Text

/-! ### Scans for a closing delimiter -/

namespace Delimiter

theorem opener_ne_closer (d : Delimiter) : d.opener ≠ d.closer := by
  cases d <;> decide

theorem opener_lt (d : Delimiter) : d.opener.toNat < 128 := by
  cases d <;> decide

@[simp] theorem ofOpener?_opener (d : Delimiter) : ofOpener? d.opener = some d := by
  cases d <;> rfl

theorem opener_injective {d d' : Delimiter} (h : d.opener = d'.opener) : d = d' := by
  rw [← Option.some_inj, ← ofOpener?_opener d, h, ofOpener?_opener]

theorem opener_of_ofOpener? {c : Char} {d : Delimiter} (h : ofOpener? c = some d) :
    c = d.opener := by
  unfold ofOpener? at h
  split at h
  · next hc => exact Option.some.inj h ▸ hc
  · split at h
    · next hc => exact Option.some.inj h ▸ hc
    · split at h
      · next hc => exact Option.some.inj h ▸ hc
      · cases h

@[simp] theorem closeFrom_opener (d : Delimiter) (inner : Nat) (before cs : Text) :
    d.closeFrom inner before (d.opener :: cs) =
      d.closeFrom (inner + 1) (d.opener :: before) cs := by
  cases inner <;> simp [closeFrom]

@[simp] theorem closeFrom_closer_zero (d : Delimiter) (before cs : Text) :
    d.closeFrom 0 before (d.closer :: cs) = some ⟨d.closer :: before, cs⟩ := by
  simp [closeFrom, d.opener_ne_closer.symm]

@[simp] theorem closeFrom_closer_succ (d : Delimiter) (inner : Nat) (before cs : Text) :
    d.closeFrom (inner + 1) before (d.closer :: cs) =
      d.closeFrom inner (d.closer :: before) cs := by
  simp [closeFrom, d.opener_ne_closer.symm]

theorem closeFrom_other {d : Delimiter} {c : Char} (hopen : c ≠ d.opener) (hclose : c ≠ d.closer)
    (inner : Nat) (before cs : Text) :
    d.closeFrom inner before (c :: cs) = d.closeFrom inner (c :: before) cs := by
  cases inner <;> simp [closeFrom, hopen, hclose]

/-- With fewer scopes open a scan ends earlier. -/
theorem closeFrom_lt {d : Delimiter} {inner fewer : Nat} {before after : Text} {e : Cursor}
    (h : d.closeFrom inner before after = some e) (hfewer : fewer < inner) :
    ∃ e', d.closeFrom fewer before after = some e' ∧ e' < e := by
  fun_induction closeFrom d inner before after generalizing fewer with
  | case1 => cases h
  | case2 inner before cs ih =>
    rw [closeFrom_opener]
    exact ih h (Nat.succ_lt_succ hfewer)
  | case3 before cs => cases hfewer
  | case4 before cs inner _ ih =>
    cases fewer with
    | zero => exact ⟨_, closeFrom_closer_zero d before cs, Markup.lt_of_closeScope h⟩
    | succ fewer =>
      rw [closeFrom_closer_succ]
      exact ih h (Nat.lt_of_succ_lt_succ hfewer)
  | case5 inner before c cs hopen hclose ih =>
    rw [closeFrom_other hopen hclose]
    exact ih h hfewer

/-- A scan comes past every place before its end. -/
theorem exists_closeFrom_of_le {d : Delimiter} {inner : Nat} {before after : Text} {e m : Cursor}
    (h : d.closeFrom inner before after = some e) (hm : ⟨before, after⟩ ≤ m) (hlt : m < e) :
    ∃ within, d.closeFrom within m.before m.after = some e := by
  fun_induction closeFrom d inner before after with
  | case1 => cases h
  | case2 inner before cs ih =>
    rcases cons_le_iff.1 hm with rfl | hm
    · exact ⟨inner, (closeFrom_opener d inner before cs).trans h⟩
    · exact ih h hm
  | case3 before cs hopen =>
    rcases cons_le_iff.1 hm with rfl | hm
    · exact ⟨0, (closeFrom_closer_zero d before cs).trans h⟩
    · -- behind the closing delimiter the scan is over
      obtain rfl := Option.some.inj h
      exact absurd hlt hm.not_gt
  | case4 before cs inner _ ih =>
    rcases cons_le_iff.1 hm with rfl | hm
    · exact ⟨inner + 1, (closeFrom_closer_succ d inner before cs).trans h⟩
    · exact ih h hm
  | case5 inner before c cs hopen hclose ih =>
    rcases cons_le_iff.1 hm with rfl | hm
    · exact ⟨inner, (closeFrom_other hopen hclose inner before cs).trans h⟩
    · exact ih h hm

/-- With `inner` scopes open in front of a text, no beginning of the text closes
more scopes than are open. -/
def StaysOpen (d : Delimiter) (inner : Nat) (s : Text) : Prop :=
  ∀ p, p <+: s → p.count d.closer ≤ p.count d.opener + inner

theorem staysOpen_nil (d : Delimiter) (inner : Nat) : d.StaysOpen inner [] := by
  intro p hp
  rw [List.prefix_nil.1 hp]
  exact Nat.zero_le _

/-- One more character is allowed if the beginnings of the rest are, each with
the character in front. -/
theorem staysOpen_cons {d : Delimiter} {inner : Nat} {c : Char} {s : Text}
    (h : ∀ p, p <+: s → (c :: p).count d.closer ≤ (c :: p).count d.opener + inner) :
    d.StaysOpen inner (c :: s) := by
  intro p hp
  rcases List.prefix_cons_iff.1 hp with rfl | ⟨q, rfl, hq⟩
  · exact Nat.zero_le _
  · exact h q hq

theorem StaysOpen.opener_cons {d : Delimiter} {inner : Nat} {s : Text}
    (h : d.StaysOpen (inner + 1) s) : d.StaysOpen inner (d.opener :: s) := by
  refine staysOpen_cons fun p hp => ?_
  have := h p hp
  rw [List.count_cons_self, List.count_cons_of_ne d.opener_ne_closer]
  omega

theorem StaysOpen.closer_cons {d : Delimiter} {inner : Nat} {s : Text}
    (h : d.StaysOpen inner s) : d.StaysOpen (inner + 1) (d.closer :: s) := by
  refine staysOpen_cons fun p hp => ?_
  have := h p hp
  rw [List.count_cons_self, List.count_cons_of_ne d.opener_ne_closer.symm]
  omega

theorem StaysOpen.other_cons {d : Delimiter} {inner : Nat} {c : Char} {s : Text}
    (h : d.StaysOpen inner s) (hopen : c ≠ d.opener) (hclose : c ≠ d.closer) :
    d.StaysOpen inner (c :: s) := by
  refine staysOpen_cons fun p hp => ?_
  rw [List.count_cons_of_ne hopen, List.count_cons_of_ne hclose]
  exact h p hp

/-- What a scan reads ends with a closing delimiter, and up to that one there is
an opening delimiter for each closing one but for those of the open scopes. -/
theorem exists_leads_of_closeFrom {d : Delimiter} {inner : Nat} {before after : Text} {e : Cursor}
    (h : d.closeFrom inner before after = some e) :
    ∃ s, Leads ⟨before, after⟩ (s ++ [d.closer]) e ∧ s.count d.opener + inner = s.count d.closer ∧
      d.StaysOpen inner s := by
  have hne := d.opener_ne_closer
  fun_induction closeFrom d inner before after with
  | case1 => cases h
  | case2 inner before cs ih =>
    obtain ⟨s, hs, hcount, hopen⟩ := ih h
    refine ⟨d.opener :: s, (Leads.cons before d.opener cs).trans hs, ?_, hopen.opener_cons⟩
    rw [List.count_cons_self, List.count_cons_of_ne hne, ← hcount]
    omega
  | case3 before cs =>
    obtain rfl := Option.some.inj h
    exact ⟨[], Leads.cons before d.closer cs, rfl, staysOpen_nil d 0⟩
  | case4 before cs inner _ ih =>
    obtain ⟨s, hs, hcount, hopen⟩ := ih h
    refine ⟨d.closer :: s, (Leads.cons before d.closer cs).trans hs, ?_, hopen.closer_cons⟩
    rw [List.count_cons_self, List.count_cons_of_ne hne.symm, ← hcount]
    omega
  | case5 inner before c cs hopen hclose ih =>
    obtain ⟨s, hs, hcount, hstays⟩ := ih h
    refine ⟨c :: s, (Leads.cons before c cs).trans hs, ?_, hstays.other_cons hopen hclose⟩
    rw [List.count_cons_of_ne hopen, List.count_cons_of_ne hclose, hcount]

/-- Where a scan finds no end, scopes stay open up to the end of the text. -/
theorem staysOpen_of_closeFrom_eq_none {d : Delimiter} {inner : Nat} {before after : Text}
    (h : d.closeFrom inner before after = none) : d.StaysOpen inner after := by
  fun_induction closeFrom d inner before after with
  | case1 inner before => exact staysOpen_nil d inner
  | case2 inner before cs ih => exact (ih h).opener_cons
  | case3 before cs => cases h
  | case4 before cs inner _ ih => exact (ih h).closer_cons
  | case5 inner before c cs hopen hclose ih => exact (ih h).other_cons hopen hclose

/-- A text is enclosed in a pair of delimiters, and holds as many of one as of
the other. -/
structure Encloses (d : Delimiter) (s : Text) : Prop where
  head_eq : s.head? = some d.opener
  last_eq : s.getLast? = some d.closer
  count_eq : s.count d.opener = s.count d.closer

end Delimiter

/-! ### Scopes -/

theorem closeScope_eq_ok_iff {c e : Cursor} :
    closeScope c = .ok e ↔ ∃ d : Delimiter, ∃ xs, c.after = d.opener :: xs ∧
      d.closeFrom 0 (d.opener :: c.before) xs = some e := by
  obtain ⟨before, after⟩ := c
  constructor
  · intro h
    unfold closeScope at h
    split at h
    · cases h
    · next x xs hahead =>
      split at h
      · cases h
      · next d hd =>
        obtain rfl := Delimiter.opener_of_ofOpener? hd
        split at h
        · next stop hstop =>
          obtain rfl := Except.ok.inj h
          exact ⟨d, xs, hahead, hstop⟩
        · cases h
  · rintro ⟨d, xs, hahead, hstop⟩
    obtain rfl : after = d.opener :: xs := hahead
    simp only [closeScope, Delimiter.ofOpener?_opener, hstop]

theorem lt_of_closeScope {c e : Cursor} (h : closeScope c = .ok e) : c < e := by
  obtain ⟨before, after⟩ := c
  obtain ⟨d, xs, rfl, hstop⟩ := closeScope_eq_ok_iff.1 h
  exact (lt_cons before d.opener xs).trans (Markup.lt_of_closeScope hstop)

/-- A scope of the same kind that opens inside another one closes inside. -/
theorem closeScope_nested {c m e : Cursor} (h : closeScope c = .ok e)
    (hhead : m.after.head? = c.after.head?) (hlt : c < m) (hm : m < e) :
    ∃ e', closeScope m = .ok e' ∧ e' < e := by
  obtain ⟨before, after⟩ := c
  obtain ⟨d, xs, rfl, hstop⟩ := closeScope_eq_ok_iff.1 h
  obtain ⟨within, ahead⟩ := m
  obtain ⟨ys, rfl⟩ := List.head?_eq_some_iff.1 hhead
  -- the outer scan comes by, and then counts the scope that opens here
  obtain ⟨inner, hinner⟩ := Delimiter.exists_closeFrom_of_le hstop (cons_lt_iff.1 hlt) hm
  rw [Delimiter.closeFrom_opener] at hinner
  obtain ⟨e', hstop', hlt'⟩ := Delimiter.closeFrom_lt hinner inner.succ_pos
  exact ⟨e', closeScope_eq_ok_iff.2 ⟨d, ys, rfl, hstop'⟩, hlt'⟩

/-- A scope is an opening delimiter, a text that opens as many scopes as it
closes and never closes more, and a closing delimiter. -/
theorem exists_body_of_closeScope {c e : Cursor} (h : closeScope c = .ok e) :
    ∃ (d : Delimiter) (s : Text), c.Leads (d.opener :: (s ++ [d.closer])) e ∧
      s.count d.opener = s.count d.closer ∧ d.StaysOpen 0 s := by
  obtain ⟨before, after⟩ := c
  obtain ⟨d, xs, rfl, hstop⟩ := closeScope_eq_ok_iff.1 h
  obtain ⟨s, hs, hcount, hstays⟩ := Delimiter.exists_leads_of_closeFrom hstop
  exact ⟨d, s, (Leads.cons before d.opener xs).trans hs, hcount, hstays⟩

/-- What a scope spans is enclosed in its delimiters. -/
theorem exists_encloses_of_closeScope {c e : Cursor} (h : closeScope c = .ok e) :
    ∃ d : Delimiter, c.after.head? = some d.opener ∧ d.Encloses (c.upTo e) := by
  obtain ⟨d, s, hs, hcount, -⟩ := exists_body_of_closeScope h
  have hne := d.opener_ne_closer
  refine ⟨d, by rw [hs.ahead]; rfl, ?_⟩
  rw [hs.upTo_eq]
  refine ⟨rfl, ?_, ?_⟩
  · rw [← List.cons_append]
    exact List.getLast?_concat
  · rw [List.count_cons_self, List.count_cons_of_ne hne, List.count_append, List.count_append,
      List.count_singleton_self, List.count_singleton, ← hcount]
    simp [hne.symm]

/-- The end of a scope by byte offsets is its end by places. -/
theorem scopeEnd_eq_ok_iff {c : Cursor} {e : Nat} :
    scopeEnd c.text c.offset = .ok e ↔ ∃ stop, closeScope c = .ok stop ∧ stop.offset = e := by
  rw [Markup.scopeEnd_offset]
  cases closeScope c with
  | error failure => simp [Except.map]
  | ok stop => simp [Except.map]

/-- A delimiter at a byte offset is one at a place. -/
theorem exists_cursor_of_opener {t : Text} {d : Delimiter} {i : Nat}
    (h : t.byteAt? i = some d.opener.toUInt8) :
    ∃ c : Cursor, c.text = t ∧ c.offset = i ∧ c.after.head? = some d.opener :=
  (Text.byteAt?_eq_ascii_iff_cursor d.opener_lt).1 h

/-- **Scopes nest**, by byte offsets. -/
theorem scopeEnd_nested {t : Text} {d : Delimiter} {i j e : Nat}
    (hi : t.byteAt? i = some d.opener.toUInt8) (hj : t.byteAt? j = some d.opener.toUInt8)
    (hij : i < j) (h : scopeEnd t i = .ok e) (hje : j < e) :
    ∃ e', scopeEnd t j = .ok e' ∧ e' < e := by
  obtain ⟨c, rfl, rfl, hc⟩ := exists_cursor_of_opener hi
  obtain ⟨m, hm, rfl, hopen⟩ := exists_cursor_of_opener hj
  obtain ⟨stop, hstop, rfl⟩ := scopeEnd_eq_ok_iff.1 h
  have htext := text_eq_of_le (lt_of_closeScope hstop).le
  have hlt : c < m := (lt_iff_offset_lt hm.symm).2 hij
  have hlt' : m < stop := (lt_iff_offset_lt (hm.trans htext.symm)).2 hje
  obtain ⟨stop', hstop', hinside⟩ := closeScope_nested hstop (hopen.trans hc.symm) hlt hlt'
  refine ⟨stop'.offset, ?_, ?_⟩
  · rw [← hm]
    exact scopeEnd_eq_ok_iff.2 ⟨stop', hstop', rfl⟩
  · exact (lt_iff_offset_lt (text_eq_of_le hinside.le).symm).1 hinside

/-! ### The body of a function -/

namespace Function

/-- The byte offset at which the body begins. -/
def opening (f : Function) : Nat := f.start + byteLength f.head

/-- A function is where it says in a text: the head begins at its start, the
body follows, and the body ends at its stop. -/
def LiesIn (f : Function) (t : Text) : Prop :=
  ∃ before after, t = before ++ f.head ++ f.body ++ after ∧
    byteLength before = f.start ∧ f.stop = f.opening + byteLength f.body

/-- Two bodies take up the same bytes, are apart, or one is strictly inside the
other. -/
def BodiesNest (f g : Function) : Prop :=
  (f.opening = g.opening ∧ f.stop = g.stop) ∨ (f.stop ≤ g.opening ∨ g.stop ≤ f.opening) ∨
    (f.opening < g.opening ∧ g.stop < f.stop) ∨ (g.opening < f.opening ∧ f.stop < g.stop)

/-- A function begins at one place, and its body is the scope that opens at the
brace at another. -/
structure Spans (f : Function) (start brace stop : Cursor) : Prop where
  le_brace : start ≤ brace
  head_brace : brace.after.head? = some Delimiter.brace.opener
  closes : closeScope brace = .ok stop
  start_eq : f.start = start.offset
  stop_eq : f.stop = stop.offset
  head_eq : f.head = start.upTo brace
  body_eq : f.body = brace.upTo stop

theorem exists_spans_of_ofHeader {t : Text} {header : Match}
    (hheader : header ∈ Catalog.functionHeader.matchesIn t) {name : Text} {f : Function}
    (h : ofHeader header name = .ok f) : ∃ brace stop, f.Spans header.start brace stop := by
  obtain ⟨paren, hstart, hparen⟩ := exists_paren_of_header hheader
  obtain ⟨params, hparams, hrest⟩ := bind_eq_ok_iff.1 h
  cases hfound : findFrom ['\x7b'] params.before params.after with
  | none =>
    rw [hfound] at hrest
    cases hrest
  | some brace =>
    rw [hfound] at hrest
    obtain ⟨stop, hstop, hf⟩ := bind_eq_ok_iff.1 hrest
    obtain ⟨hle, ahead, hahead⟩ := Text.prefix_of_findFrom hfound
    -- from the head to the bracket, over the parameters, and on to the brace
    have hclosed := lt_of_closeScope hparams
    rw [hparen.prev_eq] at hclosed
    obtain rfl := Except.ok.inj hf
    refine ⟨brace, stop, (hstart.trans hclosed.le).trans hle, ?_, hstop, rfl, rfl, rfl, rfl⟩
    rw [← hahead]
    rfl

section

variable {f g : Function} {start brace stop start' brace' stop' : Cursor}

theorem Spans.opening_eq (h : f.Spans start brace stop) : f.opening = brace.offset := by
  rw [opening, h.start_eq, h.head_eq, ← (leads_upTo h.le_brace).offset_eq]

theorem Spans.liesIn (h : f.Spans start brace stop) : f.LiesIn start.text := by
  have hhead := leads_upTo h.le_brace
  have hbody := leads_upTo (lt_of_closeScope h.closes).le
  refine ⟨start.before.reverse, stop.after, ?_, ?_, ?_⟩
  · rw [h.head_eq, h.body_eq, Cursor.text, hhead.ahead, hbody.ahead]
    simp only [List.append_assoc]
  · rw [byteLength_reverse, h.start_eq]
    rfl
  · rw [h.opening_eq, h.stop_eq, h.body_eq, ← hbody.offset_eq]

theorem Spans.encloses (h : f.Spans start brace stop) : Delimiter.brace.Encloses f.body := by
  obtain ⟨d, hd, hencloses⟩ := exists_encloses_of_closeScope h.closes
  have hbrace : d = .brace :=
    Delimiter.opener_injective (Option.some.inj (hd.symm.trans h.head_brace))
  rw [h.body_eq, ← hbrace]
  exact hencloses

/-- A body that begins later either ends inside the other one or begins behind
its end. -/
theorem Spans.apart_or_inside (h : f.Spans start brace stop) (h' : g.Spans start' brace' stop')
    (ht : start.text = start'.text) (hlt : f.opening < g.opening) :
    f.stop ≤ g.opening ∨ g.stop < f.stop := by
  have hbrace : brace.text = start.text := text_eq_of_le h.le_brace
  have hbrace' : brace'.text = start'.text := text_eq_of_le h'.le_brace
  have hstop : stop.text = brace.text := text_eq_of_le (lt_of_closeScope h.closes).le
  have hstop' : stop'.text = brace'.text := text_eq_of_le (lt_of_closeScope h'.closes).le
  rw [h.opening_eq, h'.opening_eq] at hlt
  rw [h'.opening_eq, h.stop_eq, h'.stop_eq]
  rcases Nat.lt_or_ge brace'.offset stop.offset with hinside | happart
  · right
    have hbraces : brace.text = brace'.text := by rw [hbrace, ht, hbrace']
    obtain ⟨e, he, hlt'⟩ := closeScope_nested h.closes (h'.head_brace.trans h.head_brace.symm)
      ((lt_iff_offset_lt hbraces).2 hlt)
      ((lt_iff_offset_lt (hbraces.symm.trans hstop.symm)).2 hinside)
    -- both scans start at the same brace, so they end at the same place
    obtain rfl := Except.ok.inj (h'.closes.symm.trans he)
    exact (lt_iff_offset_lt (text_eq_of_le hlt'.le).symm).1 hlt'
  · exact .inl happart

theorem Spans.bodiesNest (h : f.Spans start brace stop) (h' : g.Spans start' brace' stop')
    (ht : start.text = start'.text) : f.BodiesNest g := by
  rcases Nat.lt_trichotomy f.opening g.opening with hlt | heq | hgt
  · rcases h.apart_or_inside h' ht hlt with happart | hinside
    · exact .inr (.inl (.inl happart))
    · exact .inr (.inr (.inl ⟨hlt, hinside⟩))
  · have hbraces : brace = brace' := by
      refine eq_of_offset_eq ?_ (by rw [← h.opening_eq, ← h'.opening_eq, heq])
      rw [text_eq_of_le h.le_brace, text_eq_of_le h'.le_brace, ht]
    subst hbraces
    have hstops : stop = stop' := Except.ok.inj (h.closes.symm.trans h'.closes)
    exact .inl ⟨heq, by rw [h.stop_eq, h'.stop_eq, hstops]⟩
  · rcases h'.apart_or_inside h ht.symm hgt with happart | hinside
    · exact .inr (.inl (.inr happart))
    · exact .inr (.inr (.inr ⟨hgt, hinside⟩))

end

/-- A body that begins inside another one ends with it or before it. -/
theorem BodiesNest.stop_le {f g : Function} (h : f.BodiesNest g) (hle : g.opening ≤ f.opening)
    (hlt : f.opening < g.stop) : f.stop ≤ g.stop := by
  rcases h with ⟨-, hstop⟩ | (happart | happart) | ⟨hopening, -⟩ | ⟨-, hstop⟩
  · exact hstop.le
  · omega
  · omega
  · omega
  · exact hstop.le

end Function

/-! ### The functions of a script -/

section

variable {t : Text} {fs : List Function}

theorem exists_spans_of_mem_functions (h : functions t = .ok fs) {f : Function} (hf : f ∈ fs) :
    ∃ start brace stop : Cursor, start.text = t ∧ f.Spans start brace stop := by
  obtain ⟨header, hheader, hok⟩ := (mem_iff_of_mapM_eq_ok h).1 hf
  obtain ⟨brace, stop, hspans⟩ := Function.exists_spans_of_ofHeader hheader hok
  exact ⟨header.start, brace, stop, (mem_outcomes_of_mem_matchesIn hheader).1, hspans⟩

/-- Functions are listed in the order in which they begin. -/
theorem pairwise_functions (h : functions t = .ok fs) :
    fs.Pairwise fun f g => f.start < g.start := by
  refine pairwise_of_mapM_eq_ok h (pairwise_matchesIn Catalog.functionHeader t) ?_
  intro header hheader header' hheader' hlt f g hf hg
  obtain ⟨_, _, hspans⟩ := Function.exists_spans_of_ofHeader hheader hf
  obtain ⟨_, _, hspans'⟩ := Function.exists_spans_of_ofHeader hheader' hg
  rw [hspans.start_eq, hspans'.start_eq]
  exact (lt_iff_offset_lt (text_eq_of_le hlt.le).symm).1 hlt

theorem bodiesNest_of_mem_functions (h : functions t = .ok fs) {f g : Function} (hf : f ∈ fs)
    (hg : g ∈ fs) : f.BodiesNest g := by
  obtain ⟨_, _, _, ht, hspans⟩ := exists_spans_of_mem_functions h hf
  obtain ⟨_, _, _, ht', hspans'⟩ := exists_spans_of_mem_functions h hg
  exact hspans.bodiesNest hspans' (ht.trans ht'.symm)

end

/-! ### The function around a place -/

/-- Of functions in the order in which they begin, the one around a place that
begins last is the last one around it. -/
theorem enclosing_eq_getLast? {fs : List Function} (h : fs.Pairwise fun f g => f.start < g.start)
    (offset : Nat) : enclosing fs offset = (fs.filter (·.contains offset)).getLast? := by
  unfold enclosing
  have hsorted := h.filter (·.contains offset)
  generalize fs.filter (·.contains offset) = around at hsorted ⊢
  induction around using List.reverseRecOn with
  | nil => rfl
  | append_singleton around f ih =>
    obtain ⟨hsorted, -, hlater⟩ := List.pairwise_append.1 hsorted
    rw [List.foldl_append, ih hsorted, List.getLast?_concat]
    -- whatever was kept so far begins before `f`
    cases hkept : around.getLast? with
    | none => rfl
    | some g =>
      have hle : g.start ≤ f.start :=
        (hlater g (List.mem_of_getLast? hkept) f (List.mem_singleton_self f)).le
      simp [hle]

/-- A function is the innermost around a place: it spans the place, every other
function that does begins before it, and where such a function has it in the
body, it ends there too. -/
structure Function.IsInnermost (f : Function) (fs : List Function) (offset : Nat) : Prop where
  mem : f ∈ fs
  contains : f.contains offset = true
  start_lt : ∀ g ∈ fs, g.contains offset = true → g ≠ f → g.start < f.start
  stop_le : ∀ g ∈ fs, g.contains offset = true → g.opening ≤ f.opening → f.opening < g.stop →
    f.stop ≤ g.stop

theorem enclosing_eq_none_iff {t : Text} {fs : List Function} (h : functions t = .ok fs)
    {offset : Nat} : enclosing fs offset = none ↔ ∀ f ∈ fs, f.contains offset = false := by
  rw [enclosing_eq_getLast? (pairwise_functions h), List.getLast?_eq_none_iff,
    List.filter_eq_nil_iff]
  simp only [Bool.not_eq_true]

theorem isInnermost_of_enclosing {t : Text} {fs : List Function} (h : functions t = .ok fs)
    {offset : Nat} {f : Function} (hf : enclosing fs offset = some f) :
    f.IsInnermost fs offset := by
  have hsorted := pairwise_functions h
  rw [enclosing_eq_getLast? hsorted] at hf
  obtain ⟨earlier, haround⟩ := List.getLast?_eq_some_iff.1 hf
  have hmem : ∀ g, g ∈ earlier ++ [f] ↔ g ∈ fs ∧ g.contains offset = true := by
    intro g
    rw [← haround, List.mem_filter]
  obtain ⟨hf, hcontains⟩ := (hmem f).1 (List.mem_append_right _ (List.mem_singleton_self f))
  have hbefore : ∀ g ∈ earlier, g.start < f.start := by
    have hfiltered := hsorted.filter (·.contains offset)
    rw [haround] at hfiltered
    intro g hg
    exact (List.pairwise_append.1 hfiltered).2.2 g hg f (List.mem_singleton_self f)
  refine ⟨hf, hcontains, ?_, ?_⟩
  · intro g hg haround' hne
    rcases List.mem_append.1 ((hmem g).2 ⟨hg, haround'⟩) with hearlier | hlast
    · exact hbefore g hearlier
    · exact absurd (List.mem_singleton.1 hlast) hne
  · intro g hg _ hle hlt
    exact (bodiesNest_of_mem_functions h hf hg).stop_le hle hlt

/-- **Function bodies nest.** Scopes of one kind nest. The functions of a text
are listed in the order in which they begin; each is where it says, with a body
enclosed in braces; any two bodies are the same, apart, or one inside the other.
The function around a place is the innermost one, and there is none only where
no function is. -/
theorem functions_nest (t : Text) :
    (∀ (d : Delimiter) (i j e : Nat), t.byteAt? i = some d.opener.toUInt8 →
      t.byteAt? j = some d.opener.toUInt8 → i < j → scopeEnd t i = .ok e → j < e →
        ∃ e', scopeEnd t j = .ok e' ∧ e' < e) ∧
    ∀ fs, functions t = .ok fs →
      (fs.Pairwise fun f g => f.start < g.start) ∧
      (∀ f ∈ fs, f.LiesIn t ∧ Delimiter.brace.Encloses f.body) ∧
      (∀ f ∈ fs, ∀ g ∈ fs, f.BodiesNest g) ∧
      ∀ offset, (enclosing fs offset = none ↔ ∀ f ∈ fs, f.contains offset = false) ∧
        ∀ f, enclosing fs offset = some f → f.IsInnermost fs offset := by
  refine ⟨?_, ?_⟩
  · intro d i j e hi hj hij h hje
    exact scopeEnd_nested hi hj hij h hje
  · intro fs h
    refine ⟨pairwise_functions h, ?_, ?_, ?_⟩
    · intro f hf
      obtain ⟨start, brace, stop, rfl, hspans⟩ := exists_spans_of_mem_functions h hf
      exact ⟨hspans.liesIn, hspans.encloses⟩
    · intro f hf g hg
      exact bodiesNest_of_mem_functions h hf hg
    · intro offset
      exact ⟨enclosing_eq_none_iff h, fun f hf => isInnermost_of_enclosing h hf⟩

/-- A script with a function inside another one. -/
def nestedScript : Text := "function f(a) \x7b function g() \x7b\x7d \x7d".toList

/-- The function outside. -/
def outerFunction : Function :=
  ⟨['f'], 0, 33, "function f(a) ".toList, "\x7b function g() \x7b\x7d \x7d".toList⟩

/-- The function inside. -/
def innerFunction : Function := ⟨['g'], 16, 31, "function g() ".toList, "\x7b\x7d".toList⟩

/-- Around the inner brace, the function inside is the innermost one, and its
scope ends before the outer one does. -/
theorem functions_nest_of_nestedScript :
    functions nestedScript = .ok [outerFunction, innerFunction] ∧
      enclosing [outerFunction, innerFunction] 29 = some innerFunction ∧
      innerFunction.IsInnermost [outerFunction, innerFunction] 29 ∧
      ∃ e, scopeEnd nestedScript 29 = .ok e ∧ e < 33 := by
  have hfunctions : functions nestedScript = .ok [outerFunction, innerFunction] := by
    decide +kernel
  have henclosing : enclosing [outerFunction, innerFunction] 29 = some innerFunction := by decide
  obtain ⟨hscopes, hnest⟩ := functions_nest nestedScript
  obtain ⟨-, -, -, haround⟩ := hnest _ hfunctions
  refine ⟨hfunctions, henclosing, (haround 29).2 _ henclosing, ?_⟩
  exact hscopes .brace 14 29 33 (by decide) (by decide) (by decide) (by decide) (by decide)

end CartridgeAudit.Script
