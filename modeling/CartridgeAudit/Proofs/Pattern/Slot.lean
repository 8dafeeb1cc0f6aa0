/-
CartridgeAudit/Proofs/Pattern/Slot.lean

What a filled slot is, as a text and as an expression.

Names are put into a slot as text, and the text is read as an expression
afterwards.  Nothing in a name may be taken for notation then, and nothing in a
name may be taken for a slot that is still to be filled.

* An escaped text is read as the fixed text (`Reader.readAll_escape`), so the
  names in a slot are read as alternatives: `Reader.readAll_slot` for a slot
  that is alone in its group, `Reader.readAll_barred` for one in front of a
  further alternative.
* A slot is not found in what fills another (`replaceFrom_injection`), since
  the brace that ends a slot is escaped in every name.
-/
import CartridgeAudit.Pattern.Template
import Mathlib.Data.List.Basic

namespace CartridgeAudit.Pattern

/-! ### Escaped texts -/

namespace Reader

/-- The reader with a fixed text added to the current sequence. -/
def pushText (s : Reader) (t : Text) : Reader :=
  { s with top :=
      { s.top with items := (t.map fun c => .single (.one c)).reverse ++ s.top.items } }

variable {s : Reader}

theorem step_of_not_isMeta (hs : s.mode = .plain) {c : Char} (hc : isMeta c = false) :
    s.step c = some (s.push (.single (.one c))) := by
  unfold step
  rw [hs]
  show s.plainStep c = _
  unfold plainStep
  -- every character with a case of its own has a meaning of its own
  split
  case h_13 => rfl
  all_goals exact absurd hc (by decide)

theorem escapedStep_of_isMeta {c : Char} (hc : isMeta c = true) :
    s.escapedStep c = some (s.push (.single (.one c))) := by
  have hmem : c ∈ "\\.+*?()|[]\x7b\x7d^$#&-~".toList := by simpa [isMeta] using hc
  have hplain : "\\.+*?()|[]\x7b\x7d^$#&-~".toList.all
      (fun d => d ≠ 'b' ∧ namedClass d = none) = true := by decide
  obtain ⟨hb, hnone⟩ := of_decide_eq_true (List.all_eq_true.1 hplain c hmem)
  unfold escapedStep
  rw [if_neg hb, hnone]
  exact if_pos hc

/-- Reading an escaped text adds the fixed text. -/
theorem readAll_escape (hs : s.mode = .plain) (t rest : Text) :
    s.readAll (escape t ++ rest) = (s.pushText t).readAll rest := by
  induction t generalizing s with
  | nil => rfl
  | cons c t ih =>
    have hpush : (s.push (.single (.one c))).pushText t = s.pushText (c :: t) := by
      cases s
      cases hs
      simp [pushText, push]
    have hread : ∀ u, s.readAll (escape (c :: t) ++ u) =
        (s.push (.single (.one c))).readAll (escape t ++ u) := by
      intro u
      cases hc : isMeta c
      · simp [escape, hc, readAll, step_of_not_isMeta hs hc]
      · -- behind the backslash the reader is in another mode for one character
        have hslash : s.step '\\' = some { s with mode := .escaped } := by
          unfold step
          rw [hs]
          rfl
        have hnext : step { s with mode := .escaped } c = some (s.push (.single (.one c))) :=
          escapedStep_of_isMeta hc
        simp [escape, hc, readAll, hslash, hnext]
    rw [hread, ih rfl, hpush]

end Reader

/-! ### Texts that fill a slot -/

/-- Escaped names, each with a bar behind it. -/
def barred (names : List Text) : Text := names.flatMap fun name => escape name ++ ['|']

theorem barred_cons (name : Text) (names : List Text) :
    barred (name :: names) = escape name ++ '|' :: barred names := by
  simp [barred]

namespace Template

theorem alternation_concat (names : List Text) (last : Text) :
    alternation (names ++ [last]) = barred names ++ escape last := by
  induction names with
  | nil => rfl
  | cons name names ih =>
    obtain ⟨second, rest, hcons⟩ : ∃ second rest, names ++ [last] = second :: rest := by
      cases names <;> simp
    rw [barred_cons, List.cons_append, List.append_assoc, List.cons_append, ← ih, hcons]
    simp [alternation, Text.join]

variable {t : Template}

theorem injection_nil (ht : t.suffix = []) : t.injection [] = never := by
  simp [injection, ht]

theorem injection_concat (ht : t.suffix = []) (names : List Text) (last : Text) :
    t.injection (names ++ [last]) = barred names ++ escape last := by
  simp [injection, ht, alternation_concat]

/-- With a bar as the suffix every name has one behind it. -/
theorem injection_eq_barred (ht : t.suffix = ['|']) (names : List Text) :
    t.injection names = barred names := by
  rcases List.eq_nil_or_concat' names with rfl | ⟨names, last, rfl⟩
  · simp [injection, ht, barred]
  · simp [injection, ht, alternation_concat, barred]

end Template

/-! ### Slots are read as alternatives -/

/-- What a slot without suffix is read as. -/
def slot (names : List Text) : Regex :=
  if names.isEmpty then .single ⟨true, [.blank, .notBlank]⟩ else .choice (names.map .literal)

/-- What a group with an expression in it is read as. -/
def Frame.group (index : Option Nat) (r : Regex) : Regex :=
  match index with
  | some i => .capture i r
  | none => r

namespace Reader

section

variable (lines : Bool) (captures : Nat) (top : Frame) (outer : List Frame)

/-- Names with bars are read as complete alternatives. -/
theorem readAll_barred (index : Option Nat) (done : List Regex) (names : List Text)
    (rest : Text) :
    readAll ⟨lines, captures, ⟨index, done, []⟩, outer, .plain⟩ (barred names ++ rest) =
      readAll ⟨lines, captures, ⟨index, (names.map .literal).reverse ++ done, []⟩, outer, .plain⟩
        rest := by
  induction names generalizing done with
  | nil => rfl
  | cons name names ih =>
    have hbar : ∀ u : Text,
        readAll (pushText ⟨lines, captures, ⟨index, done, []⟩, outer, .plain⟩ name) ('|' :: u) =
          readAll ⟨lines, captures, ⟨index, .literal name :: done, []⟩, outer, .plain⟩ u := by
      intro u
      simp [readAll, step, plainStep, pushText, Regex.literal]
    rw [barred_cons, List.append_assoc, List.cons_append, readAll_escape rfl, hbar, ih]
    simp

/-- A slot that is alone in its group is read as a choice between its names. -/
theorem readAll_slot {t : Template} (ht : t.suffix = []) (index : Option Nat)
    (names : List Text) (rest : Text) :
    readAll ⟨lines, captures, .opening index, top :: outer, .plain⟩
        (t.injection names ++ ')' :: rest) =
      readAll
        ⟨lines, captures, { top with items := Frame.group index (slot names) :: top.items }, outer,
          .plain⟩
        rest := by
  rcases List.eq_nil_or_concat' names with rfl | ⟨names, last, rfl⟩
  · rw [Template.injection_nil ht]
    cases index <;> rfl
  · have hclose : (⟨index, (names.map .literal).reverse, (last.map fun c =>
        Regex.single (.one c)).reverse⟩ : Frame).close =
          Frame.group index (slot (names ++ [last])) := by
      cases index <;> simp [Frame.close, Frame.group, slot, Regex.literal]
    rw [Template.injection_concat ht, List.append_assoc, Frame.opening, readAll_barred,
      readAll_escape rfl]
    simp [readAll, step, plainStep, pushText, hclose]

/-- A round bracket opens a capturing group unless a question mark follows. -/
theorem readAll_opened {c : Char} (hc : c ≠ '?') (rest : Text) :
    readAll ⟨lines, captures, top, outer, .opened⟩ (c :: rest) =
      readAll ⟨lines, captures + 1, .opening (some (captures + 1)), top :: outer, .plain⟩
        (c :: rest) := by
  simp [readAll, step, hc, openGroup]

end

end Reader

theorem head?_escape_append_ne (t : Text) {x : Char} (hx : x ≠ '?') (rest : Text) :
    ∃ c u, c ≠ '?' ∧ escape t ++ x :: rest = c :: u := by
  cases t with
  | nil => exact ⟨x, rest, hx, rfl⟩
  | cons c t =>
    cases hc : isMeta c
    · refine ⟨c, escape t ++ x :: rest, ?_, by simp [escape, hc]⟩
      rintro rfl
      exact absurd hc (by decide)
    · exact ⟨'\\', c :: (escape t ++ x :: rest), by decide, by simp [escape, hc]⟩

/-- What fills a slot never begins with a question mark. -/
theorem Template.exists_injection_eq_cons {t : Template} (ht : t.suffix = [])
    (names : List Text) (rest : Text) :
    ∃ c u, c ≠ '?' ∧ t.injection names ++ ')' :: rest = c :: u := by
  rcases List.eq_nil_or_concat' names with rfl | ⟨names, last, rfl⟩
  · rw [injection_nil ht]
    exact ⟨'[', _, by decide, rfl⟩
  · rw [injection_concat ht]
    cases names with
    | nil => exact head?_escape_append_ne last (by decide) rest
    | cons name names =>
      rw [barred_cons]
      simpa using head?_escape_append_ne name (x := '|') (by decide) _

/-! ### No slot is found in what fills another -/

/-- A slot: plain characters in braces. -/
def IsSlot (needle : Text) : Prop :=
  ∃ body, needle = '\x7b' :: (body ++ ['\x7d']) ∧ ∀ c ∈ body, isMeta c = false

theorem isSlot_of_all {body : Text} (h : body.all (!isMeta ·) = true) :
    IsSlot ('\x7b' :: (body ++ ['\x7d'])) :=
  ⟨body, rfl, fun c hc => by simpa using List.all_eq_true.1 h c hc⟩

theorem isSlot_methods : IsSlot Template.methods :=
  @isSlot_of_all "methods".toList (by decide)

section Replacing

variable {needle replacement : Text}

/-- A character other than an opening brace is kept. -/
theorem replaceFrom_cons (hn : IsSlot needle) {c : Char} (hc : c ≠ '\x7b') (rest : Text) :
    Text.replaceFrom needle replacement 0 (c :: rest) =
      c :: Text.replaceFrom needle replacement 0 rest := by
  obtain ⟨body, rfl, -⟩ := hn
  rw [Text.replaceFrom, if_neg]
  simp [hc.symm]

theorem replaceFrom_append (hn : IsSlot needle) {s : Text} (hs : '\x7b' ∉ s) (rest : Text) :
    Text.replaceFrom needle replacement 0 (s ++ rest) =
      s ++ Text.replaceFrom needle replacement 0 rest := by
  induction s with
  | nil => rfl
  | cons c s ih =>
    have hc : c ≠ '\x7b' := fun h => hs (h ▸ List.mem_cons_self)
    rw [List.cons_append, replaceFrom_cons hn hc, ih fun h => hs (List.mem_cons_of_mem _ h),
      List.cons_append]

/-- The end of a slot is not found at the front of an escaped text: the closing
brace stands behind a backslash there. -/
theorem not_prefix_escape_append {body : Text} (hbody : ∀ c ∈ body, isMeta c = false)
    {x : Char} (hx : x ∉ body ++ ['\x7d']) (t rest : Text) :
    ¬ (body ++ ['\x7d']) <+: (escape t ++ x :: rest) := by
  induction body generalizing t with
  | nil =>
    intro h
    cases t with
    | nil =>
      have : '\x7d' = x := (List.cons_prefix_cons.1 h).1
      exact hx (by simp [← this])
    | cons c t =>
      cases hc : isMeta c
      · rw [escape, if_neg (by simp [hc])] at h
        have : '\x7d' = c := (List.cons_prefix_cons.1 h).1
        exact absurd hc (this ▸ by decide)
      · rw [escape, if_pos hc] at h
        exact absurd (List.cons_prefix_cons.1 h).1 (by decide)
  | cons b body ih =>
    have hb := hbody b List.mem_cons_self
    intro h
    cases t with
    | nil =>
      have : b = x := (List.cons_prefix_cons.1 h).1
      exact hx (by simp [this])
    | cons c t =>
      cases hc : isMeta c
      · rw [escape, if_neg (by simp [hc])] at h
        refine ih (fun d hd => hbody d (List.mem_cons_of_mem _ hd)) ?_ t
          (List.cons_prefix_cons.1 h).2
        exact fun h' => hx (List.mem_cons_of_mem _ h')
      · rw [escape, if_pos hc] at h
        have : b = '\\' := (List.cons_prefix_cons.1 h).1
        exact absurd hb (this ▸ by decide)

theorem replaceFrom_escape_append (hn : IsSlot needle) {x : Char} (hx : x ∉ needle)
    (t rest : Text) :
    Text.replaceFrom needle replacement 0 (escape t ++ x :: rest) =
      escape t ++ Text.replaceFrom needle replacement 0 (x :: rest) := by
  induction t with
  | nil => rfl
  | cons c t ih =>
    cases hc : isMeta c
    · have hne : c ≠ '\x7b' := by
        rintro rfl
        exact absurd hc (by decide)
      rw [escape, if_neg (by simp [hc]), List.cons_append, replaceFrom_cons hn hne, ih,
        List.cons_append]
    · -- an escaped brace could begin a slot, but the slot does not end
      have hkeep : Text.replaceFrom needle replacement 0 (c :: (escape t ++ x :: rest)) =
          c :: Text.replaceFrom needle replacement 0 (escape t ++ x :: rest) := by
        obtain ⟨body, rfl, hbody⟩ := hn
        have hx' : x ∉ body ++ ['\x7d'] := fun h => hx (List.mem_cons_of_mem _ h)
        have hno := not_prefix_escape_append hbody hx' t rest
        rw [Text.replaceFrom, if_neg]
        rw [List.isPrefixOf_iff_prefix, List.cons_prefix_cons]
        exact fun h => hno h.2
      rw [escape, if_pos hc, List.cons_append, List.cons_append, replaceFrom_cons hn (by decide),
        hkeep, ih, List.cons_append, List.cons_append]

theorem replaceFrom_barred_append (hn : IsSlot needle) (hbar : '|' ∉ needle)
    (names : List Text) (rest : Text) :
    Text.replaceFrom needle replacement 0 (barred names ++ rest) =
      barred names ++ Text.replaceFrom needle replacement 0 rest := by
  induction names with
  | nil => rfl
  | cons name names ih =>
    rw [barred_cons, List.append_assoc, List.cons_append, replaceFrom_escape_append hn hbar,
      replaceFrom_cons hn (by decide), ih, List.append_assoc, List.cons_append]

/-- What fills a slot is kept when another slot is filled. -/
theorem replaceFrom_injection (hn : IsSlot needle) (hbar : '|' ∉ needle) (hclose : ')' ∉ needle)
    {t : Template} (ht : t.suffix = []) (names : List Text) (rest : Text) :
    Text.replaceFrom needle replacement 0 (t.injection names ++ ')' :: rest) =
      t.injection names ++ ')' :: Text.replaceFrom needle replacement 0 rest := by
  rw [← replaceFrom_cons hn (c := ')') (by decide)]
  rcases List.eq_nil_or_concat' names with rfl | ⟨names, last, rfl⟩
  · rw [Template.injection_nil ht]
    exact replaceFrom_append hn (by decide) _
  · rw [Template.injection_concat ht, List.append_assoc, replaceFrom_barred_append hn hbar,
      replaceFrom_escape_append hn hclose, List.append_assoc]

end Replacing

end CartridgeAudit.Pattern
