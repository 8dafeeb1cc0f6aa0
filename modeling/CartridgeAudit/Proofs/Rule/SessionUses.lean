/-
CartridgeAudit/Proofs/Rule/SessionUses.lean

Uses of custom attributes of the session.

The rule reports whole lines, and a line of the text may be part of a longer
violation: the character behind `.custom` may be the newline, and then what is
reported goes on to the end of the next line.  No use is lost by that.  From the
line start before a use the expression matches (`exists_matches_of_usesSession`),
so that line start lies in some match; matches end where lines do, and between
the line start and the use no line ends, so the use lies in the same match
(`lt_stop_of_usesSession`).

Main result: `noSessionCustom_covers`.
-/
import CartridgeAudit.Proofs.Pattern.ClosingCalls
import CartridgeAudit.Proofs.Pattern.Lines
import CartridgeAudit.Proofs.Rule.Spans

namespace CartridgeAudit.Rule

open Pattern Regex Cursor

/-! ### Uses -/

/-- A variable of a script that is bound to the session somewhere. -/
def IsSessionAlias (t n : Text) : Prop := ∃ m ∈ Catalog.sessionAlias.matchesIn t, m.groupText 1 = n

/-- A text that stands for the session at a place: its name or an alias, which
begin at a word boundary, or the call that returns it. -/
inductive NamesSession (aliases : Text → Prop) (u : Cursor) : Text → Prop
  | own : Anchor.wordBoundary.holds u = true → NamesSession aliases u "session".toList
  | bound {n : Text} : aliases n → Anchor.wordBoundary.holds u = true → NamesSession aliases u n
  | call : NamesSession aliases u "request.getSession()".toList

/-- A text that leads to the custom attributes. -/
inductive ReachesCustom : Text → Prop
  | field {x : Char} : Text.isWord x = false → ReachesCustom (".custom".toList ++ [x])
  | getter : ReachesCustom ".getCustom()".toList

/-- Custom attributes of the session are used between two places. -/
def UsesSession (aliases : Text → Prop) (u e : Cursor) : Prop :=
  ∃ n access, NamesSession aliases u n ∧ ReachesCustom access ∧ u.Leads (n ++ access) e

theorem mem_sessionAliases_iff {t n : Text} : n ∈ sessionAliases t ↔ IsSessionAlias t n := by
  have hfold : sessionAliases t = ((Catalog.sessionAlias.matchesIn t).map (·.groupText 1)).foldl
      (fun known name => if known.contains name then known else known ++ [name]) [] := by
    rw [List.foldl_map]
    rfl
  rw [hfold, mem_foldl_once]
  simp [IsSessionAlias]

/-- The binding of an alias begins with it. -/
theorem IsSessionAlias.isIdentifier {t n : Text} (h : IsSessionAlias t n) : IsIdentifier n := by
  obtain ⟨m, hm, rfl⟩ := h
  have hfirst : Catalog.sessionAlias.CapturesFirst 1
      fun p b _ => ∃ n, IsIdentifier n ∧ p.Leads n b :=
    capturesFirst_word.extend rfl |>.extend rfl |>.extend rfl |>.extend rfl |>.extend rfl
      |>.extend rfl |>.extend rfl |>.extend rfl
  obtain ⟨stop, hgroup, n, hname, hleads⟩ := hfirst.of_mem_matchesIn hm
  rwa [groupText_eq hgroup hleads]

/-! ### What the expression matches -/

section

variable {names : List Text} {p q : Cursor}

/-- The part of the expression that stands for the session. -/
def sessionName (names : List Text) : Regex :=
  .choice [.sequence [boundary, .choice (Template.sessionNames names)], lit "request.getSession()"]

/-- The part of the expression that leads to the custom attributes. -/
def customAccess : Regex :=
  .choice [.sequence (Template.letters "custom" ++ [.single .notWord]), lit "getCustom()"]

/-- The expression for a line with a use. -/
def sessionLine (names : List Text) : Regex :=
  .sequence [.assert .lineStart, .many .inLine true, sessionName names, .single (.one '.'),
    customAccess, .many .inLine true, .assert .lineEnd]

theorem build_sessionCustom (names : List Text) :
    Template.sessionCustom.build [(Template.vars, names)] = .ok (sessionLine names) :=
  Template.build_eq_ok (Template.sessionCustom_build? names)

theorem matches_sessionName_iff :
    (sessionName names).Matches p q ↔ ∃ n, NamesSession (· ∈ names) p n ∧ p.Leads n q := by
  show (alt (seq boundary (.choice (Template.sessionNames names)))
    (literal "request.getSession()".toList)).Matches p q ↔ _
  simp only [boundary, Template.sessionNames, lit, matches_alt, matches_seq, matches_assert,
    matches_choice, matches_literal, List.mem_append, List.mem_map, List.mem_singleton]
  constructor
  · rintro (⟨_, ⟨hedge, rfl⟩, _, ⟨n, hn, rfl⟩ | rfl, hname⟩ | hcall)
    · exact ⟨n, .bound hn hedge, matches_literal.1 hname⟩
    · exact ⟨_, .own hedge, matches_literal.1 hname⟩
    · exact ⟨_, .call, hcall⟩
  · rintro ⟨n, hname, hleads⟩
    cases hname with
    | own hedge => exact .inl ⟨p, ⟨hedge, rfl⟩, _, .inr rfl, matches_literal.2 hleads⟩
    | bound hn hedge =>
      exact .inl ⟨p, ⟨hedge, rfl⟩, _, .inl ⟨n, hn, rfl⟩, matches_literal.2 hleads⟩
    | call => exact .inr hleads

theorem matches_customAccess_iff :
    (Regex.seq (.single (.one '.')) customAccess).Matches p q ↔
      ∃ access, ReachesCustom access ∧ p.Leads access q := by
  show (seq (.single (.one '.')) (alt (.sequence (Template.letters "custom" ++ [.single .notWord]))
    (literal "getCustom()".toList))).Matches p q ↔ _
  simp only [matches_seq, matches_alt, matches_one, matches_sequence_append,
    Template.matches_letters, matches_literal]
  show (∃ m, p.Leads ".".toList m ∧ ((∃ c, m.Leads "custom".toList c ∧
    (single .notWord).Matches c q) ∨ m.Leads "getCustom()".toList q)) ↔ _
  simp only [matches_single, contains_notWord_iff]
  constructor
  · rintro ⟨m, hdot, ⟨c, hcustom, x, hx, hword⟩ | hgetter⟩
    · exact ⟨_, .field hword, (hdot.trans hcustom).trans hx⟩
    · exact ⟨_, .getter, hdot.trans hgetter⟩
  · rintro ⟨access, haccess, hleads⟩
    cases haccess with
    | @field x hword =>
      obtain ⟨c, hcustom, hx⟩ := hleads.exists_between
      obtain ⟨m, hdot, hcustom⟩ :=
        Leads.exists_between (s := ".".toList) (r := "custom".toList) hcustom
      exact ⟨m, hdot, .inl ⟨c, hcustom, x, hx, hword⟩⟩
    | getter =>
      obtain ⟨m, hdot, hgetter⟩ :=
        Leads.exists_between (s := ".".toList) (r := "getCustom()".toList) hleads
      exact ⟨m, hdot, .inr hgetter⟩

theorem usesSession_iff {aliases : Text → Prop} {u e : Cursor} :
    UsesSession aliases u e ↔ ∃ m, (∃ n, NamesSession aliases u n ∧ u.Leads n m) ∧
      ∃ access, ReachesCustom access ∧ m.Leads access e := by
  constructor
  · rintro ⟨n, access, hn, haccess, hleads⟩
    obtain ⟨m, hname, hrest⟩ := hleads.exists_between
    exact ⟨m, ⟨n, hn, hname⟩, access, haccess, hrest⟩
  · rintro ⟨m, ⟨n, hn, hname⟩, access, haccess, hrest⟩
    exact ⟨n, access, hn, haccess, hname.trans hrest⟩

/-- The expression matches from the start of a line over a use to the end of a
line. -/
theorem matches_sessionLine_iff :
    (sessionLine names).Matches p q ↔
      ∃ u e, UsesSession (· ∈ names) u e ∧
        (Anchor.lineStart.holds p = true ∧ ∃ s, '\n' ∉ s ∧ p.Leads s u) ∧
        (Anchor.lineEnd.holds q = true ∧ ∃ s, '\n' ∉ s ∧ e.Leads s q) := by
  have hmiddle : (Regex.sequence ([.assert .lineStart, .many .inLine true] ++
      ([sessionName names, .single (.one '.'), customAccess] ++
        [.many .inLine true, .assert .lineEnd]))).Matches p q ↔ _ :=
    matches_sequence_append.trans (exists_congr fun u => and_congr_right fun _ =>
      matches_sequence_append)
  refine hmiddle.trans ?_
  show (∃ u, (seq (.assert .lineStart) (.many .inLine true)).Matches p u ∧
    ∃ e, (seq (sessionName names) (seq (.single (.one '.')) customAccess)).Matches u e ∧
      (seq (.many .inLine true) (.assert .lineEnd)).Matches e q) ↔ _
  simp only [matches_seq (r := sessionName names), matches_sessionName_iff,
    matches_customAccess_iff, ← usesSession_iff]
  simp only [matches_seq, matches_assert, matches_inLine]
  constructor
  · rintro ⟨u, ⟨_, ⟨hstart, rfl⟩, hbehind⟩, e, huse, _, hahead, hend, rfl⟩
    exact ⟨u, e, huse, ⟨hstart, hbehind⟩, hend, hahead⟩
  · rintro ⟨u, e, huse, ⟨hstart, hbehind⟩, hend, hahead⟩
    exact ⟨u, ⟨p, ⟨hstart, rfl⟩, hbehind⟩, e, huse, q, hahead, hend, rfl⟩

theorem isProper_sessionLine (names : List Text) : (sessionLine names).isProper = true := by
  simp [sessionLine, isProper_sequence, isProper]

end

/-! ### What is reported -/

section

variable {aliases : Text → Prop} {c u e : Cursor} {names : List Text}

/-- No newline stands where the session is named. -/
theorem UsesSession.exists_cons (h : UsesSession aliases u e)
    (haliases : ∀ n, aliases n → IsIdentifier n) :
    ∃ x d, x ≠ '\n' ∧ u.Leads [x] d := by
  have hfirst : ∀ n, NamesSession aliases u n → ∃ x xs, n = x :: xs ∧ x ≠ '\n' := by
    intro n hn
    cases hn with
    | own => exact ⟨'s', _, rfl, by decide⟩
    | bound hmem =>
      obtain ⟨x, xs, rfl⟩ := List.exists_cons_of_ne_nil (haliases n hmem).ne_nil
      refine ⟨x, xs, rfl, ?_⟩
      rintro rfl
      exact absurd ((haliases _ hmem).isWord _ List.mem_cons_self) (by decide)
    | call => exact ⟨'r', _, rfl, by decide⟩
  obtain ⟨n, access, hn, -, hleads⟩ := h
  obtain ⟨x, xs, rfl, hx⟩ := hfirst n hn
  obtain ⟨d, hd, -⟩ := Leads.exists_between (s := [x]) (r := xs ++ access) hleads
  exact ⟨x, d, hx, hd⟩

/-- From the start of its line the expression matches over a use. -/
theorem UsesSession.exists_matches (h : UsesSession (· ∈ names) u e) {s : Text}
    (hstart : Anchor.lineStart.holds c = true) (hs : '\n' ∉ s) (hcu : c.Leads s u) :
    ∃ q, (sessionLine names).Matches c q := by
  obtain ⟨rest, q, hrest⟩ := e.exists_lineRest
  exact ⟨q, matches_sessionLine_iff.2 ⟨u, e, h, ⟨hstart, s, hs, hcu⟩,
    lineEnd_holds_iff.2 hrest.ends, rest, hrest.not_mem, hrest.leads⟩⟩

/-- A match around the start of a line goes on over the uses in that line. -/
theorem UsesSession.lt_of_lineEnd (h : UsesSession aliases u e)
    (haliases : ∀ n, aliases n → IsIdentifier n) {s : Text} (hs : '\n' ∉ s) (hcu : c.Leads s u)
    {stop : Cursor} (hlt : c < stop) (hend : Anchor.lineEnd.holds stop = true) : u < stop := by
  obtain ⟨x, d, hx, hud⟩ := h.exists_cons haliases
  rcases lt_or_le_of_le hlt.le hcu.le with hstop | hle
  · exact hstop
  · -- else the line would end before the use
    have hline : '\n' ∉ s ++ [x] := by simpa [hs, eq_comm] using hx
    have hnot := not_lineEnd_of_leads (hcu.trans hud) hline hlt.le
      (hle.trans_lt (hud.lt_iff.2 (List.cons_ne_nil x [])))
    exact absurd hend (by rw [hnot]; exact Bool.false_ne_true)

variable {t : Text} {m : Match}

/-- The matches are the lines from which a use is reached. -/
theorem of_mem_matchesIn_sessionLine (hm : m ∈ (sessionLine names).matchesIn t) :
    Anchor.lineStart.holds m.start = true ∧ Anchor.lineEnd.holds m.stop = true ∧
      ∃ u e, UsesSession (· ∈ names) u e ∧ m.start ≤ u ∧ e ≤ m.stop := by
  obtain ⟨u, e, huse, ⟨hstart, s, -, hs⟩, hend, r, -, hr⟩ :=
    matches_sessionLine_iff.1 (matches_of_mem_matchesIn hm)
  exact ⟨hstart, hend, u, e, huse, hs.le, hr.le⟩

/-- Every use begins in some match. -/
theorem UsesSession.exists_match (h : UsesSession (· ∈ names) u e)
    (hnames : ∀ n ∈ names, IsIdentifier n) :
    ∃ m ∈ (sessionLine names).matchesIn u.text, m.start ≤ u ∧ u < m.stop := by
  obtain ⟨c, s, hstart, hs, hcu⟩ := exists_lineStart u
  obtain ⟨q, hq⟩ := h.exists_matches hstart hs hcu
  obtain ⟨m, hm, hle, hlt⟩ := exists_mem_matchesIn_around (isProper_sessionLine names) hq
  rw [← hcu.text_eq] at hm
  exact ⟨m, hm, hle.trans hcu.le,
    h.lt_of_lineEnd hnames hs hcu hlt (of_mem_matchesIn_sessionLine hm).2.1⟩

end

/-- **Every use is covered**: it begins in one violation and in no other one.
Violations go from the start of a line to the end of a line, they are listed in
order and apart from each other, and each has a use in it. -/
theorem noSessionCustom_covers (v : FileView) (notices : List Notice) :
    ∃ found, (noSessionCustom.check v notices).1 = .ok found ∧
      (∀ u e : Cursor, u.text = v.content → UsesSession (IsSessionAlias v.content) u e →
        ∃! w, w ∈ found ∧ w.offset ≤ u.offset ∧ u.offset < w.stop) ∧
      (∀ w ∈ found, ∃ p q : Cursor, p.text = v.content ∧ w.Spans p q ∧
        Anchor.lineStart.holds p = true ∧ Anchor.lineEnd.holds q = true ∧
        ∃ u e, UsesSession (IsSessionAlias v.content) u e ∧ p ≤ u ∧ e ≤ q) ∧
      found.Pairwise fun w w' => w.stop ≤ w'.offset := by
  have haliases : (· ∈ sessionAliases v.content) = IsSessionAlias v.content :=
    funext fun n => propext mem_sessionAliases_iff
  have hidentifiers : ∀ n ∈ sessionAliases v.content, IsIdentifier n :=
    fun n hn => (mem_sessionAliases_iff.1 hn).isIdentifier
  have hproper := isProper_sessionLine (sessionAliases v.content)
  have hcheck : (noSessionCustom.check v notices).1 =
      (sessionLine (sessionAliases v.content)).violations v.content := by
    show sessionCustomUses v.content = _
    rw [sessionCustomUses, build_sessionCustom]
    rfl
  obtain ⟨found, hfound, -⟩ := exists_violations hproper v.content
  refine ⟨found, hcheck.trans hfound, ?_, ?_, pairwise_stop_le_violations hproper hfound⟩
  · intro u e htext huse
    rw [← haliases] at huse
    obtain ⟨m, hm, hle, hlt⟩ := huse.exists_match hidentifiers
    rw [htext] at hm
    exact existsUnique_violation hproper hfound hm hle hlt
  · intro w hw
    obtain ⟨m, hm, hmarks⟩ := (mem_violations_iff hfound).1 hw
    rw [← haliases]
    exact ⟨m.start, m.stop, (mem_outcomes_of_mem_matchesIn hm).1,
      Match.spans_of_marks hproper hm hmarks, of_mem_matchesIn_sessionLine hm⟩

/-- Behind `.custom` the newline is taken, and the next line with it. -/
example : sessionCustomUses "a = session.custom\nb = session.custom.c\nd".toList =
    .ok [⟨"a = session.custom\nb = session.custom.c".toList, 0, none, by decide⟩] := by
  decide +kernel

end CartridgeAudit.Rule
