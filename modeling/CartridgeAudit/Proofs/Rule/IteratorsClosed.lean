/-
CartridgeAudit/Proofs/Rule/IteratorsClosed.lean

Iterators that are not closed.

A class is used in a script through some names, its own one among them if it is
used directly (`name_mem_aliases`), and the rule looks for calls through these
names.  A call that is found is reported as a whole, if its variable is not
closed in the function around the call (`callViolation_eq_ok_iff`).

The variable of such a call is the first one that the line up to the call is
assigned to, which need not be the one that takes the iterator.  So a direct call
that is assigned to a variable is judged by that variable or by one before it in
the line (`directCall_reported`), and a call of `close` counts wherever it stands
in the function: not every iterator that stays open is found
(`openIterators_not_reported`).
-/
import CartridgeAudit.Proofs.Pattern.SavedCalls
import CartridgeAudit.Proofs.Report.Rows
import CartridgeAudit.Proofs.Script.Nesting
import CartridgeAudit.Rule.Closing

namespace CartridgeAudit.Rule

open Pattern Regex Cursor

/-! ### Names of a class -/

/-- What may stand between a class and the dot behind it. -/
def callTails : List Text := [[], ['"', ')'], ['\'', ')']]

theorem not_isBlank_of_mem_callTail {tail : Text} (htail : tail ∈ callTails) {x : Char}
    (hx : x ∈ tail ++ ['.']) : Text.isBlank x = false := by
  have hnone : (callTails.all fun tail => (tail ++ ['.']).all (!Text.isBlank ·)) = true := by
    decide
  simpa using List.all_eq_true.1 (List.all_eq_true.1 hnone tail htail) x hx

/-- Where a dot follows, there is no call. -/
theorem callTail_eq_nil {tail rest after : Text} (htail : tail ∈ callTails)
    (h : tail ++ after = ['.'] ++ rest) : tail = [] := by
  simp only [callTails, List.mem_cons, List.not_mem_nil, or_false] at htail
  rcases htail with rfl | rfl | rfl
  · rfl
  · cases h
  · cases h

/-- The expression for a direct use of a class. -/
def directUse (name : Text) : Regex :=
  .seq
    (.capture 1 (.seq (slot [name])
      (maybe (.seq (.single (.anyOf "\"'")) (.single (.one ')'))))))
    (.single (.one '.'))

/-- The expression for a variable that is bound to a class. -/
def boundTo (name : Text) : Regex :=
  .seq (.capture 1 (run1 .word)) (.sequence [maybe (.single .blank), .single (.one '='),
    maybe (.single .blank), restOfLine, slot [name]])

theorem build_classDirect (name : Text) :
    Template.classDirect.build [(Template.vars, [name])] = .ok (directUse name) :=
  Template.build_eq_ok (Template.classDirect_build? [name])

theorem build_classVariable (name : Text) :
    Template.classVariable.build [(Template.vars, [name])] = .ok (boundTo name) :=
  Template.build_eq_ok (Template.classVariable_build? [name])

theorem mem_classAliases {t name a : Text} {aliases : List Text}
    (h : classAliases t name = .ok aliases) :
    a ∈ aliases ↔
      (∃ m ∈ (boundTo name).matchesIn t, continuesWithCall m.stop.after = false ∧
        m.groupText 1 = a) ∨
      ∃ m ∈ (directUse name).matchesIn t, m.groupText 1 = a := by
  rw [classAliases, build_classVariable, build_classDirect] at h
  obtain rfl := Except.ok.inj h
  rw [mem_foldl_once]
  simp [and_assoc]

section

variable {name : Text} {p q : Cursor}

theorem matches_callTail :
    (maybe (.seq (.single (.anyOf "\"'")) (.single (.one ')')))).Matches p q ↔
      ∃ tail ∈ callTails, p.Leads tail q := by
  have hquote : ∀ x, (CharClass.anyOf "\"'").contains x = true ↔ x = '"' ∨ x = '\'' := by
    intro x
    show ([ClassItem.one '"', .one '\''].any (·.covers x) != false) = true ↔ _
    simp [ClassItem.covers, eq_comm (a := x)]
  simp only [maybe, matches_alt, matches_seq, matches_one, matches_empty, callTails,
    List.mem_cons, List.not_mem_nil, or_false]
  simp only [matches_single, hquote]
  constructor
  · rintro (⟨c, ⟨x, hx, rfl | rfl⟩, hc⟩ | rfl)
    · exact ⟨_, .inr (.inl rfl), hx.trans hc⟩
    · exact ⟨_, .inr (.inr rfl), hx.trans hc⟩
    · exact ⟨_, .inl rfl, Leads.refl q⟩
  · rintro ⟨_, rfl | rfl | rfl, hleads⟩
    · exact .inr (leads_nil_iff.1 hleads).symm
    · obtain ⟨c, hx, hc⟩ := Leads.exists_between (s := ['"']) (r := [')']) hleads
      exact .inl ⟨c, ⟨'"', hx, .inl rfl⟩, hc⟩
    · obtain ⟨c, hx, hc⟩ := Leads.exists_between (s := ['\'']) (r := [')']) hleads
      exact .inl ⟨c, ⟨'\'', hx, .inr rfl⟩, hc⟩

theorem matches_directUse :
    (directUse name).Matches p q ↔ ∃ tail ∈ callTails, p.Leads (name ++ (tail ++ ['.'])) q := by
  simp only [directUse, matches_seq, matches_capture, matches_slot, List.mem_singleton,
    exists_eq_left, matches_callTail, matches_one]
  constructor
  · rintro ⟨c, ⟨b, hname, tail, htail, hb⟩, hc⟩
    exact ⟨tail, htail, hname.trans (hb.trans hc)⟩
  · rintro ⟨tail, htail, hleads⟩
    obtain ⟨b, hname, hleads⟩ := hleads.exists_between
    obtain ⟨c, hb, hc⟩ := hleads.exists_between
    exact ⟨c, ⟨b, hname, tail, htail, hb⟩, hc⟩

/-- A direct use captures the class and what stands before the dot. -/
theorem capturesFirst_directUse (name : Text) :
    (directUse name).CapturesFirst 1 fun p b q =>
      ∃ tail ∈ callTails, p.Leads (name ++ tail) b ∧ b.Leads ['.'] q := by
  have hbinds : (Regex.seq (slot [name])
      (maybe (.seq (.single (.anyOf "\"'")) (.single (.one ')'))))).binds 1 = false :=
    Bool.or_eq_false_iff.2 ⟨binds_slot 1 [name], rfl⟩
  refine ((capturesFirst_capture hbinds).seq rfl).imp ?_
  rintro p b q ⟨_, ⟨hcapture, rfl⟩, hdot⟩
  obtain ⟨c, hslot, hmaybe⟩ := matches_seq.1 hcapture
  obtain ⟨_, hmem, hname⟩ := matches_slot.1 hslot
  obtain rfl := List.mem_singleton.1 hmem
  obtain ⟨tail, htail, hleads⟩ := matches_callTail.1 hmaybe
  exact ⟨tail, htail, hname.trans hleads, matches_one.1 hdot⟩

theorem isProper_directUse (name : Text) : (directUse name).isProper = true :=
  Bool.or_true _

/-- A class is bound to a name. -/
theorem isIdentifier_of_mem_boundTo {t : Text} {m : Match} (hm : m ∈ (boundTo name).matchesIn t) :
    IsIdentifier (m.groupText 1) := by
  have hbinds : (Regex.sequence [maybe (.single .blank), .single (.one '='), maybe (.single .blank),
      restOfLine, slot [name]]).binds 1 = false := by
    apply binds_sequence
    simp [binds_slot, maybe, restOfLine, run, binds]
  obtain ⟨b, hgroup, _, ⟨hword, -⟩, -⟩ :=
    ((capturesFirst_capture (r := run1 .word) rfl).seq hbinds).of_mem_matchesIn hm
  obtain ⟨n, hn, hleads⟩ := matches_word_iff.1 hword
  rwa [groupText_eq hgroup hleads]

end

section

variable {t name : Text} {aliases : List Text} (h : classAliases t name = .ok aliases)

include h

/-- A class without blanks is reached through names without newlines. -/
theorem not_newline_of_mem_aliases (hname : '\n' ∉ name) {a : Text} (ha : a ∈ aliases) :
    '\n' ∉ a := by
  rcases (mem_classAliases h).1 ha with ⟨m, hm, -, rfl⟩ | ⟨m, hm, rfl⟩
  · intro hmem
    exact absurd ((isIdentifier_of_mem_boundTo hm).isWord _ hmem) (by decide)
  · obtain ⟨b, hgroup, tail, htail, hleads, -⟩ := (capturesFirst_directUse name).of_mem_matchesIn hm
    have hnone : ∀ tail ∈ callTails, '\n' ∉ tail := by decide
    rw [groupText_eq hgroup hleads, List.mem_append]
    exact not_or.2 ⟨hname, hnone tail htail⟩

/-- A class without blanks that is used directly behind a blank is reached
through its own name. -/
theorem name_mem_aliases (hname : ∀ x ∈ name, Text.isBlank x = false) {c : Cursor}
    (htext : c.text = t) {z : Char} (hz : Text.isBlank z = true) (hbehind : c.before.head? = some z)
    (hahead : name ++ ['.'] <+: c.after) : name ∈ aliases := by
  obtain ⟨rest, hrest⟩ := hahead
  have hmatches : (directUse name).Matches c ⟨(name ++ ['.']).reverse ++ c.before, rest⟩ :=
    matches_directUse.2 ⟨[], by decide, hrest.symm, rfl⟩
  obtain ⟨m, hm, hle, hlt⟩ := exists_mem_matchesIn_around (isProper_directUse name) hmatches
  rw [htext] at hm
  obtain ⟨b, hgroup, tail, htail, hleads, hdot⟩ :=
    (capturesFirst_directUse name).of_mem_matchesIn hm
  have hrun : z ∉ name ++ tail ++ ['.'] := by
    rw [List.append_assoc, List.mem_append]
    rintro (hmem | hmem)
    · exact Bool.false_ne_true ((hname z hmem).symm.trans hz)
    · exact Bool.false_ne_true ((not_isBlank_of_mem_callTail htail hmem).symm.trans hz)
  have hstart : m.start = c := (hleads.trans hdot).eq_of_not_mem hrun hle hlt.le hbehind
  have hnil : tail = [] := by
    have hsame : name ++ (['.'] ++ rest) = name ++ (tail ++ b.after) := by
      rw [← List.append_assoc, hrest, ← hstart, hleads.ahead, List.append_assoc]
    exact callTail_eq_nil htail (List.append_cancel_left hsame).symm
  refine (mem_classAliases h).2 (.inr ⟨m, hm, ?_⟩)
  rw [groupText_eq hgroup hleads, hnil, List.append_nil]

end

/-! ### What is checked of a call -/

section

variable {t : Text} {fs : List Script.Function} {holders names : List Text} {call : Match}
  {o : Option Violation}

/-- A call is reported, as a whole, if and only if its variable is not closed in
its scope. -/
theorem callViolation_eq_ok_iff
    (hcall : call ∈ (Template.callOf (slot holders) (slot names)).matchesIn t) :
    callViolation (.ok fs) t call = .ok o ↔
      (IsClosedIn (closingScope fs t call.start.offset) (call.groupText 1) ∧ o = none) ∨
        (¬ IsClosedIn (closingScope fs t call.start.offset) (call.groupText 1) ∧
          ∃ v, o = some v ∧ v.Marks call.text call.start.offset) := by
  obtain ⟨hname, -⟩ := exists_value_of_mem_calls hcall
  have hne := text_ne_nil_of_mem_matchesIn (isProper_callOf holders names) hcall
  obtain ⟨v, hv⟩ := Violation.exists_new hne call.start.offset
  have hviolation : call.violation = .ok v := hv
  have hmarks : ∀ w : Violation, w.Marks call.text call.start.offset ↔ w = v := by
    intro w
    rw [← Violation.new_eq_ok_iff, hv, Except.ok.injEq, eq_comm]
  have hsteps : callViolation (.ok fs) t call =
      if (closingOf [call.groupText 1]).isMatch (closingScope fs t call.start.offset) = true
      then .ok none else .ok (some v) := by
    unfold callViolation
    rw [build_closedVariable, hviolation]
    rfl
  rw [hsteps, ← closingOf_isMatch_iff hname.isIdentifier]
  simp only [hmarks, exists_eq_right]
  split
  · next h => simp [h, eq_comm]
  · next h => simp [h, eq_comm]

end

section

variable {functions : Except AuditError (List Script.Function)} {t : Text}
  {found : List Violation} {k : QueryClass} {aliases : List Text}

/-- The calls of a class are looked for through its names. -/
theorem unclosedOfClass_eq (haliases : classAliases t k.name = .ok aliases) (hne : aliases ≠ []) :
    unclosedOfClass functions t k =
      ((Template.callOf (slot aliases) (slot k.methods)).matchesIn t).mapM
        (callViolation functions t) >>= fun answers => .ok (answers.filterMap id) := by
  have hempty : ¬ aliases.isEmpty = true := by simpa using hne
  unfold unclosedOfClass
  rw [haliases]
  show (if aliases.isEmpty = true then _ else _) = _
  rw [if_neg hempty, Template.build_eq_ok (Template.methodCallSaved_build? _ _)]
  rfl

/-- What is reported for a class: the calls whose check gives a violation. -/
theorem mem_unclosedOfClass_iff (h : unclosedOfClass functions t k = .ok found)
    (haliases : classAliases t k.name = .ok aliases) (hne : aliases ≠ []) {v : Violation} :
    v ∈ found ↔ ∃ call ∈ (Template.callOf (slot aliases) (slot k.methods)).matchesIn t,
      callViolation functions t call = .ok (some v) := by
  rw [unclosedOfClass_eq haliases hne] at h
  obtain ⟨answers, hanswers, hfound⟩ := bind_eq_ok_iff.1 h
  obtain rfl := Except.ok.inj hfound
  simp only [List.mem_filterMap, id, exists_eq_right, mem_iff_of_mapM_eq_ok hanswers]

/-- The check of every call ends. -/
theorem exists_callViolation (h : unclosedOfClass functions t k = .ok found)
    (haliases : classAliases t k.name = .ok aliases) (hne : aliases ≠ []) {call : Match}
    (hcall : call ∈ (Template.callOf (slot aliases) (slot k.methods)).matchesIn t) :
    ∃ o, callViolation functions t call = .ok o := by
  rw [unclosedOfClass_eq haliases hne] at h
  obtain ⟨answers, hanswers, -⟩ := bind_eq_ok_iff.1 h
  obtain ⟨o, -, ho⟩ := exists_of_mem_of_mapM_eq_ok hanswers hcall
  exact ⟨o, ho⟩

theorem eq_nil_of_no_aliases (haliases : classAliases t k.name = .ok [])
    (h : unclosedOfClass functions t k = .ok found) : found = [] := by
  unfold unclosedOfClass at h
  rw [haliases] at h
  exact (Except.ok.inj h).symm

theorem exists_classAliases (t name : Text) : ∃ aliases, classAliases t name = .ok aliases := by
  rw [classAliases, build_classVariable, build_classDirect]
  exact ⟨_, rfl⟩

/-- Every class is checked, and what is found is what is found for some class. -/
theorem of_unclosedIterators {classes : List QueryClass}
    (h : unclosedIterators classes t = .ok found) :
    (∀ k ∈ classes, ∃ vs, unclosedOfClass (Script.functions t) t k = .ok vs ∧ vs ⊆ found) ∧
      ∀ v ∈ found, ∃ k ∈ classes, ∃ vs,
        unclosedOfClass (Script.functions t) t k = .ok vs ∧ v ∈ vs := by
  obtain ⟨byClass, hbyClass, hfound⟩ := bind_eq_ok_iff.1 h
  obtain rfl := Except.ok.inj hfound
  refine ⟨fun k hk => ?_, fun v hv => ?_⟩
  · obtain ⟨vs, hvs, hok⟩ := exists_of_mem_of_mapM_eq_ok hbyClass hk
    exact ⟨vs, hok, fun v hv => List.mem_flatten.2 ⟨vs, hvs, hv⟩⟩
  · obtain ⟨vs, hvs, hv⟩ := List.mem_flatten.1 hv
    obtain ⟨k, hk, hok⟩ := (mem_iff_of_mapM_eq_ok hbyClass).1 hvs
    exact ⟨k, hk, vs, hok, hv⟩

end

/-! ### Direct calls -/

/-- The names of a class and of its methods have no blanks in them. -/
def QueryClass.IsPlain (k : QueryClass) : Prop :=
  ∀ n ∈ k.name :: k.methods, ∀ x ∈ n, Text.isBlank x = false

instance (k : QueryClass) : Decidable k.IsPlain :=
  decidable_of_iff ((k.name :: k.methods).all fun n => n.all (!Text.isBlank ·)) (by
    simp [QueryClass.IsPlain])

/-- A method of a class is called at a place, and a variable, which stands there
as a whole word, takes the result. -/
structure DirectCall (k : QueryClass) (m x : Text) (p : Cursor) : Prop where
  stands : StandsAt x p
  ahead : x ++ (" = ".toList ++ (k.name ++ '.' :: (m ++ ['(']))) <+: p.after

/-- The span of a violation contains a word at a place. -/
def Covers (v : Violation) (x : Text) (p : Cursor) : Prop :=
  v.offset ≤ p.offset ∧ p.offset + Text.byteLength x ≤ v.offset + Text.byteLength v.text

section

variable {t x m : Text} {p e : Cursor} {k : QueryClass} {holders names : List Text} {call : Match}

theorem QueryClass.IsPlain.not_newline (h : k.IsPlain) {n : Text} (hn : n ∈ k.name :: k.methods) :
    '\n' ∉ n := by
  intro hmem
  exact absurd (h n hn '\n' hmem) (by decide)

/-- A call that is reported covers a word if the word lies within the match. -/
theorem covers_iff (hcall : call ∈ (Template.callOf (slot holders) (slot names)).matchesIn t)
    (hp : p.text = t) (he : p.Leads x e) {v : Violation}
    (hv : v.Marks call.text call.start.offset) :
    Covers v x p ↔ call.start ≤ p ∧ e ≤ call.stop := by
  obtain ⟨htext, -⟩ := mem_outcomes_of_mem_matchesIn hcall
  have hle := le_of_matches (matches_of_mem_matchesIn hcall)
  have hstop := (leads_upTo hle).offset_eq
  rw [le_iff_offset_le (htext.trans hp.symm), le_iff_offset_le
    (he.text_eq.trans (hp.trans (htext.symm.trans (text_eq_of_le hle).symm))), he.offset_eq, hstop,
    Covers, hv.offset_eq, hv.text_eq]
  rfl

/-- The class of a direct call is reached through its own name. -/
theorem DirectCall.name_mem_aliases (h : DirectCall k m x p) (hk : k.IsPlain) (hp : p.text = t)
    {aliases : List Text} (haliases : classAliases t k.name = .ok aliases) :
    k.name ∈ aliases := by
  obtain ⟨rest, hrest⟩ := h.ahead
  have hleads : p.Leads (x ++ " = ".toList) ⟨(x ++ " = ".toList).reverse ++ p.before,
      k.name ++ '.' :: (m ++ ['(']) ++ rest⟩ := ⟨by rw [← hrest]; simp, rfl⟩
  refine Rule.name_mem_aliases haliases (hk _ List.mem_cons_self) (hleads.text_eq.trans hp)
    (z := ' ') (by decide) ?_ ⟨m ++ ['('] ++ rest, by simp⟩
  rw [hleads.behind, List.reverse_append]
  rfl

/-- Behind a text that ends in a word character, before one that does not begin
with one, there is a word boundary. -/
theorem boundary_holds_of_leads {s w : Text} (h : p.Leads (s ++ w) e)
    (hw : headIsWord w.reverse = true) (hrest : headIsWord e.after = false) :
    Anchor.wordBoundary.holds e = true := by
  have hne : w.reverse ≠ [] := by
    intro hnil
    rw [hnil] at hw
    cases hw
  have hbehind : headIsWord e.before = true := by
    rw [h.behind, List.reverse_append, List.append_assoc, headIsWord_append hne, hw]
  show (headIsWord e.before != headIsWord e.after) = true
  rw [hbehind, hrest]
  rfl

/-- A direct call is matched where its variable stands. -/
theorem DirectCall.matches (h : DirectCall k m x p) (hholder : k.name ∈ holders) (hm : m ∈ names)
    (hend : headIsWord m.reverse = true) :
    ∃ q, (Template.callOf (slot holders) (slot names)).Matches p q := by
  obtain ⟨rest, hrest⟩ := h.ahead
  have hsign : IsEquals " = ".toList := .intro (a := [' ']) (b := [' '])
    ⟨by decide, List.all_eq_true.1 (by decide)⟩ ⟨by decide, List.all_eq_true.1 (by decide)⟩
  obtain ⟨q, hleads, hq⟩ : ∃ q, p.Leads (x ++ (" = ".toList ++ ([] ++ (k.name ++ '.' :: m)))) q ∧
      q.after = '(' :: rest :=
    ⟨⟨_, '(' :: rest⟩, ⟨by rw [← hrest]; simp, rfl⟩, rfl⟩
  have hbracket : headIsWord q.after = false := by
    rw [hq]
    exact (by decide : Text.isWord '(' = false)
  have hregroup : x ++ (" = ".toList ++ ([] ++ (k.name ++ '.' :: m))) =
      (x ++ (" = ".toList ++ (k.name ++ ['.']))) ++ m := by simp
  have hholds := boundary_holds_of_leads (hregroup ▸ hleads) hend hbracket
  obtain ⟨c, hx, hvalue⟩ := hleads.exists_between
  exact ⟨q, matches_callOf.2 ⟨x, c, h.stands.isIdentifier, hx, matches_assignedCall.2
    ⟨hholds, _, [], k.name, m, hsign, List.not_mem_nil, hholder, hm, hvalue⟩⟩⟩

section

variable {fs : List Script.Function} {vs : List Violation} {v : Violation} {aliases : List Text}
  (hk : k.IsPlain) (haliases : classAliases t k.name = .ok aliases)

include hk haliases

/-- A match around a word of a plain class's call. -/
theorem of_mem_plainCalls_around
    (hcall : call ∈ (Template.callOf (slot aliases) (slot k.methods)).matchesIn t)
    (hx : StandsAt x p) (he : p.Leads x e) (hle : call.start ≤ p) (hlt : p < call.stop) :
    SharesLine p x call.start (call.groupText 1) ∧ e ≤ call.stop :=
  of_mem_calls_around
    (fun _ hh => not_newline_of_mem_aliases haliases (hk.not_newline List.mem_cons_self) hh)
    (fun _ hn => hk.not_newline (List.mem_cons_of_mem _ hn)) hcall hx he hle hlt

/-- A violation that covers a word is one for a variable that is checked in the
stead of the word, and that variable is not closed. -/
theorem exists_unclosed_of_covers (hok : unclosedOfClass (.ok fs) t k = .ok vs) (hv : v ∈ vs)
    (hp : p.text = t) (hx : StandsAt x p) (hcovers : Covers v x p) :
    ∃ q y, SharesLine p x q y ∧ ¬ IsClosedIn (closingScope fs t q.offset) y := by
  have hne : aliases ≠ [] := by
    rintro rfl
    rw [eq_nil_of_no_aliases haliases hok] at hv
    cases hv
  obtain ⟨call, hcall, hviolation⟩ := (mem_unclosedOfClass_iff hok haliases hne).1 hv
  rcases (callViolation_eq_ok_iff hcall).1 hviolation with ⟨-, hnone⟩ | ⟨hopen, w, hsome, hmarks⟩
  · cases hnone
  obtain rfl := Option.some.inj hsome
  obtain ⟨e, he⟩ := hx.leads
  obtain ⟨hle, hstop⟩ := (covers_iff hcall hp he hmarks).1 hcovers
  have hlt := (he.lt_iff.2 hx.ne_nil).trans_le hstop
  exact ⟨_, _, (of_mem_plainCalls_around hk haliases hcall hx he hle hlt).1, hopen⟩

/-- Some match begins at or before the variable of a direct call and does not end
there. -/
theorem DirectCall.exists_call (h : DirectCall k m x p) (hp : p.text = t) (hm : m ∈ k.methods)
    (hend : headIsWord m.reverse = true) :
    ∃ call ∈ (Template.callOf (slot aliases) (slot k.methods)).matchesIn t,
      call.start ≤ p ∧ p < call.stop := by
  obtain ⟨q, hq⟩ := h.matches (h.name_mem_aliases hk hp haliases) hm hend
  rw [← hp]
  exact exists_mem_matchesIn_around (isProper_callOf _ _) hq

/-- If none of the variables that are checked in the stead of a word is closed,
the match around the word is reported. -/
theorem exists_covers_of_unclosed (hok : unclosedOfClass (.ok fs) t k = .ok vs) (hne : aliases ≠ [])
    (hcall : call ∈ (Template.callOf (slot aliases) (slot k.methods)).matchesIn t)
    (hle : call.start ≤ p) (hlt : p < call.stop) (hp : p.text = t) (hx : StandsAt x p)
    (hopen : ∀ q y, SharesLine p x q y → ¬ IsClosedIn (closingScope fs t q.offset) y) :
    ∃ v ∈ vs, Covers v x p := by
  obtain ⟨e, he⟩ := hx.leads
  obtain ⟨hshares, hstop⟩ := of_mem_plainCalls_around hk haliases hcall hx he hle hlt
  obtain ⟨v, hv⟩ := Violation.exists_new
    (text_ne_nil_of_mem_matchesIn (isProper_callOf _ _) hcall) call.start.offset
  have hmarks := Violation.new_eq_ok_iff.1 hv
  have hviolation : callViolation (.ok fs) t call = .ok (some v) :=
    (callViolation_eq_ok_iff hcall).2 (.inr ⟨hopen _ _ hshares, v, rfl, hmarks⟩)
  exact ⟨v, (mem_unclosedOfClass_iff hok haliases hne).2 ⟨call, hcall, hviolation⟩,
    (covers_iff hcall hp he hmarks).2 ⟨hle, hstop⟩⟩

end

end

/-- **Direct calls.** Where the variable of a direct call stands, what the rule
looks at is the variable itself or one to which the line up to it is assigned.
If a violation covers the variable, one of these is not closed in its scope; and
if none of them is closed in its scope, a violation covers the variable.  So
where there is no such variable in front of it, a violation covers it if and only
if it is not closed in its scope. -/
theorem directCall_reported {classes : List QueryClass} (hplain : ∀ k ∈ classes, k.IsPlain)
    {t : Text} {found : List Violation} (h : unclosedIterators classes t = .ok found)
    {k : QueryClass} (hk : k ∈ classes) {m : Text} (hm : m ∈ k.methods)
    (hend : headIsWord m.reverse = true) {x : Text} {p : Cursor} (hp : p.text = t)
    (hcall : DirectCall k m x p) :
    ∃ fs, Script.functions t = .ok fs ∧
      ((∃ v ∈ found, Covers v x p) →
        ∃ q y, SharesLine p x q y ∧ ¬ IsClosedIn (closingScope fs t q.offset) y) ∧
      ((∀ q y, SharesLine p x q y → ¬ IsClosedIn (closingScope fs t q.offset) y) →
        ∃ v ∈ found, Covers v x p) ∧
      ((∀ q y, SharesLine p x q y → q = p) →
        ((∃ v ∈ found, Covers v x p) ↔ ¬ IsClosedIn (closingScope fs t p.offset) x)) := by
  obtain ⟨hchecked, hfound⟩ := of_unclosedIterators h
  obtain ⟨vs, hok, hsub⟩ := hchecked k hk
  obtain ⟨aliases, haliases⟩ := exists_classAliases t k.name
  have hne := List.ne_nil_of_mem (hcall.name_mem_aliases (hplain k hk) hp haliases)
  -- the check of the match around the variable asks for the functions
  obtain ⟨call, hmem, hle, hlt⟩ := hcall.exists_call (hplain k hk) haliases hp hm hend
  obtain ⟨o, ho⟩ := exists_callViolation hok haliases hne hmem
  obtain ⟨fs, hfs, -⟩ := bind_eq_ok_iff.1 ho
  rw [hfs] at hok hfound
  have honly : (∃ v ∈ found, Covers v x p) →
      ∃ q y, SharesLine p x q y ∧ ¬ IsClosedIn (closingScope fs t q.offset) y := by
    rintro ⟨v, hv, hcovers⟩
    obtain ⟨k', hk', vs', hok', hv'⟩ := hfound v hv
    obtain ⟨aliases', haliases'⟩ := exists_classAliases t k'.name
    exact exists_unclosed_of_covers (hplain k' hk') haliases' hok' hv' hp hcall.stands hcovers
  have hall : (∀ q y, SharesLine p x q y → ¬ IsClosedIn (closingScope fs t q.offset) y) →
      ∃ v ∈ found, Covers v x p := by
    intro hopen
    obtain ⟨v, hv, hcovers⟩ := exists_covers_of_unclosed (hplain k hk) haliases hok hne hmem hle hlt
      hp hcall.stands hopen
    exact ⟨v, hsub hv, hcovers⟩
  refine ⟨fs, hfs, honly, hall, fun halone => ⟨fun hcovered => ?_, fun hopen => ?_⟩⟩
  · obtain ⟨q, y, hshares, hopen⟩ := honly hcovered
    obtain rfl := halone q y hshares
    rwa [hshares.eq_of_same] at hopen
  · refine hall fun q y hshares => ?_
    obtain rfl := halone q y hshares
    rwa [hshares.eq_of_same]

/-- A class with one method. -/
def mgr : QueryClass := .named "Mgr" ["query"]

/-- The variable of a direct call, in a function that does not close it. -/
def leftOpening : Cursor :=
  ⟨"function f(q) \x7b\n  ".toList.reverse, "it = Mgr.query(q);\n\x7d".toList⟩

/-- The variable is covered, and so one that is checked in its stead is not closed. -/
theorem directCall_reported_leftOpening :
    ∃ found fs, unclosedIterators [mgr] leftOpening.text = .ok found ∧
      Script.functions leftOpening.text = .ok fs ∧
      (∃ v ∈ found, Covers v "it".toList leftOpening) ∧
      ∃ q y, SharesLine leftOpening "it".toList q y ∧
        ¬ IsClosedIn (closingScope fs leftOpening.text q.offset) y := by
  have hplain : ∀ k ∈ [mgr], k.IsPlain := by decide +kernel
  have hfound : unclosedIterators [mgr] leftOpening.text =
      .ok [⟨"it = Mgr.query".toList, 18, none, by decide⟩] := by decide +kernel
  have hcall : DirectCall mgr "query".toList "it".toList leftOpening :=
    ⟨⟨by decide, by decide, by decide +kernel⟩, by decide +kernel⟩
  obtain ⟨fs, hfs, honly, -⟩ := directCall_reported hplain hfound (List.mem_singleton_self mgr)
    (List.mem_singleton_self _) (by decide) rfl hcall
  have hcovered : ∃ v ∈ [(⟨"it = Mgr.query".toList, 18, none, by decide⟩ : Violation)],
      Covers v "it".toList leftOpening :=
    ⟨_, List.mem_singleton_self _, by decide +kernel, by decide +kernel⟩
  exact ⟨_, fs, hfound, hfs, hcovered, honly hcovered⟩

/-! ### Iterators that are not found -/

/-- Behind a place, `close` is called on a name, in the body of the function
around the place if there is one. -/
def ClosedBehind (fs : List Script.Function) (x : Text) (p : Cursor) : Prop :=
  ∃ c, p < c ∧ isClosedAt x c = true ∧ ∀ f ∈ Script.enclosing fs p.offset,
    f.opening ≤ c.offset ∧ c.offset + Text.byteLength (x ++ closeCall) ≤ f.stop

/-- Every direct call is covered whose variable is not closed behind it. -/
def AllReported (classes : List QueryClass) (t : Text) : Prop :=
  ∀ found fs, unclosedIterators classes t = .ok found → Script.functions t = .ok fs →
    ∀ k ∈ classes, ∀ m ∈ k.methods, ∀ x p, p.text = t → DirectCall k m x p →
      ¬ ClosedBehind fs x p → ∃ v ∈ found, Covers v x p

/-- The second of two variables of direct calls in a line, of which the first one
is closed. -/
def secondInLine : Cursor :=
  ⟨("function run() \x7b\n    var ".toList ++ "a = OrderMgr.queryOrders(q), ".toList).reverse,
    "b = OrderMgr.searchOrders(q);\n".toList ++ "    a.close();\n\x7d\n".toList⟩

/-- The variable of a direct call behind the call of `close`. -/
def closedBefore : Cursor :=
  ⟨"function f(it) \x7b\n  it.close();\n  ".toList.reverse, "it = Mgr.query();\n\x7d".toList⟩

/-- A script in which nothing is reported, and a direct call in it whose variable
is closed nowhere behind. -/
theorem not_allReported {classes : List QueryClass} {k : QueryClass} {m x : Text} {p : Cursor}
    (hk : k ∈ classes) (hm : m ∈ k.methods) (hfunctions : (Script.functions p.text).toOption.isSome)
    (hfound : unclosedIterators classes p.text = .ok []) (hcall : DirectCall k m x p)
    (hopen : (places p.before p.after).all (!isClosedAt x ·) = true) :
    ¬ AllReported classes p.text := by
  intro h
  cases hfs : Script.functions p.text with
  | error failure =>
    rw [hfs] at hfunctions
    cases hfunctions
  | ok fs =>
    have hbehind : ¬ ClosedBehind fs x p := by
      rintro ⟨c, hc, hclosed, -⟩
      have hno := List.all_eq_true.1 hopen c (mem_places_iff.2 hc.le)
      rw [hclosed] at hno
      cases hno
    obtain ⟨v, hv, -⟩ := h [] fs hfound hfs k hk m hm x p rfl hcall hbehind
    cases hv

/-- **Not every open iterator is found**: not a second one in a line, and not one
that is opened behind the call of `close`. -/
theorem openIterators_not_reported :
    ¬ AllReported platformClasses secondInLine.text ∧ ¬ AllReported [mgr] closedBefore.text := by
  constructor
  · exact not_allReported (k := .named "OrderMgr" ["queryOrders", "searchOrders"])
      (m := "searchOrders".toList) (x := "b".toList) (by decide +kernel) (by decide +kernel)
      (by decide +kernel) (by decide +kernel)
      ⟨⟨by decide, by decide +kernel, by decide +kernel⟩, by decide +kernel⟩ (by decide +kernel)
  · exact not_allReported (m := "query".toList) (x := "it".toList) (List.mem_singleton_self mgr)
      (List.mem_singleton_self _) (by decide +kernel) (by decide +kernel)
      ⟨⟨by decide, by decide, by decide +kernel⟩, by decide +kernel⟩ (by decide +kernel)

end CartridgeAudit.Rule
