/-
CartridgeAudit/Proofs/Pattern/Injection.lean

Names in a slot are taken literally, and one at a time.

A template is an expression with a hole (`Around`).  Filling its slot with names
puts a choice between the names into the hole, and an expression with a choice
in it is found where it is found with one of the alternatives
(`Around.fill_choice_matches`).  Without names the hole is filled with an
expression that matches nothing, and so matches nothing itself unless there is
another way around the hole (`Around.fill_never_matches`).

What each template is, with its slot filled, is worked out by the reader: the
part before the slot leads to an open group, the slot becomes one item of it,
and the part behind never looks at that item (`build?_of_slot`).

Main result: `injection_distributes`, for all templates of the auditor.
-/
import CartridgeAudit.Proofs.Pattern.Matches
import CartridgeAudit.Proofs.Pattern.Slot

namespace CartridgeAudit.Pattern

open Regex

/-! ### Expressions with a hole -/

/-- An expression with a hole: a member of a sequence, the content of a
capture, or the first of several alternatives. -/
inductive Around
  | hole
  | sequence (before : List Regex) (around : Around) (after : List Regex)
  | capture (index : Nat) (around : Around)
  | choice (around : Around) (others : List Regex)

namespace Around

/-- The expression with the hole filled. -/
def fill : Around → Regex → Regex
  | hole, r => r
  | sequence before c after, r => .sequence (before ++ c.fill r :: after)
  | capture i c, r => .capture i (c.fill r)
  | choice c others, r => .choice (c.fill r :: others)

/-- Whether every way to match leads through the hole. -/
def isNarrow : Around → Bool
  | hole => true
  | sequence _ c _ | capture _ c => c.isNarrow
  | choice _ _ => false

variable {p q : Cursor}

/-- With a choice in the hole, one of the alternatives is used. -/
theorem fill_choice_matches (c : Around) {rs : List Regex} (hrs : rs ≠ []) :
    (c.fill (.choice rs)).Matches p q ↔ ∃ r ∈ rs, (c.fill r).Matches p q := by
  induction c generalizing p q with
  | hole => exact matches_choice
  | sequence before c after ih =>
    simp only [fill, matches_sequence_around, ih]
    constructor
    · rintro ⟨a, b, ha, ⟨r, hr, hm⟩, hb⟩
      exact ⟨r, hr, a, b, ha, hm, hb⟩
    · rintro ⟨r, hr, a, b, ha, hm, hb⟩
      exact ⟨a, b, ha, ⟨r, hr, hm⟩, hb⟩
  | capture i c ih => simp only [fill, matches_capture, ih]
  | choice c others ih =>
    -- an alternative beside the hole needs some filling to be stated with
    obtain ⟨first, hfirst⟩ := List.exists_mem_of_ne_nil rs hrs
    simp only [fill, matches_choice, List.mem_cons, exists_eq_or_imp, ih]
    constructor
    · rintro (⟨r, hr, hm⟩ | hother)
      · exact ⟨r, hr, .inl hm⟩
      · exact ⟨first, hfirst, .inr hother⟩
    · rintro ⟨r, hr, hm | hother⟩
      · exact .inl ⟨r, hr, hm⟩
      · exact .inr hother

/-- With nothing to match in the hole, nothing is matched. -/
theorem fill_never_matches {c : Around} (hc : c.isNarrow = true) {r : Regex}
    (hr : ∀ a b, ¬ r.Matches a b) : ¬ (c.fill r).Matches p q := by
  induction c generalizing p q with
  | hole => exact hr p q
  | sequence before c after ih =>
    rw [fill, matches_sequence_around]
    rintro ⟨a, b, -, hm, -⟩
    exact ih hc hm
  | capture i c ih =>
    rw [fill, matches_capture]
    exact ih hc
  | choice c others => cases hc

/-- An expression with a choice in its hole is found where it is found with one
of the alternatives. -/
theorem fill_choice_isMatch (c : Around) {rs : List Regex} (hrs : rs ≠ []) {u : Text} :
    (c.fill (.choice rs)).isMatch u = true ↔ ∃ r ∈ rs, (c.fill r).isMatch u = true := by
  simp only [isMatch_iff, c.fill_choice_matches hrs]
  constructor
  · rintro ⟨p, q, hu, r, hr, hm⟩
    exact ⟨r, hr, p, q, hu, hm⟩
  · rintro ⟨r, hr, p, q, hu, hm⟩
    exact ⟨p, q, hu, r, hr, hm⟩

/-- A narrow expression with a slot in its hole is found where it is found with
one of the names. -/
theorem fill_slot_isMatch {c : Around} (hc : c.isNarrow = true) (names : List Text) (u : Text) :
    (c.fill (slot names)).isMatch u = true ↔
      ∃ name ∈ names, (c.fill (slot [name])).isMatch u = true := by
  cases names with
  | nil =>
    have hnever : ∀ a b, ¬ (slot []).Matches a b := by
      intro a b
      rw [slot, if_pos (by rfl), matches_single]
      rintro ⟨x, -, hx⟩
      cases hb : Text.isBlank x <;> simp [CharClass.contains, ClassItem.covers, hb] at hx
    constructor
    · intro h
      obtain ⟨p, q, -, hm⟩ := isMatch_iff.1 h
      exact absurd hm (fill_never_matches hc hnever)
    · rintro ⟨name, hname, -⟩
      cases hname
  | cons first names =>
    have hne : (first :: names).map literal ≠ [] := by simp
    show (c.fill (.choice ((first :: names).map literal))).isMatch u = true ↔ _
    rw [c.fill_choice_isMatch hne]
    constructor
    · rintro ⟨r, hr, hm⟩
      obtain ⟨name, hname, rfl⟩ := List.mem_map.1 hr
      exact ⟨name, hname, hm⟩
    · rintro ⟨name, hname, hm⟩
      exact ⟨literal name, List.mem_map_of_mem hname, hm⟩

end Around

/-! ### What the templates are built to -/

namespace Template

/-- A template whose slot is alone in a group: if the text before the slot
leads into a new group, and the text behind makes an expression around whatever
the group holds, then filling the slot puts a choice between the names there. -/
theorem build?_of_slot {t : Template} (left right : Text) (ht : t.suffix = [])
    (hsource : ∀ filling, Text.replaceAll vars filling t.source = left ++ (filling ++ ')' :: right))
    {lines : Bool} {captures : Nat} {top : Frame} {outer : List Frame}
    (hleft : Reader.initial.readAll left =
      some ⟨lines, captures, .opening none, top :: outer, .plain⟩)
    {c : Around}
    (hright : ∀ r, (Reader.readAll
      ⟨lines, captures, { top with items := r :: top.items }, outer, .plain⟩ right).bind
        Reader.finish = some (c.fill r))
    (names : List Text) : t.build? [(vars, names)] = some (c.fill (slot names)) := by
  show Regex.ofSource? (Text.replaceAll vars (t.injection names) t.source) = _
  rw [hsource, Regex.ofSource?, Reader.readAll_append, hleft, Option.bind_some,
    Reader.readAll_slot _ _ _ _ ht]
  exact hright _

/-- The characters of a text, each as an expression. -/
def letters (s : String) : List Regex := s.toList.map fun c => .single (.one c)

theorem matches_letters {s : String} {p q : Cursor} :
    (sequence (letters s)).Matches p q ↔ p.Leads s.toList q := matches_literal

/-- One of some texts. -/
def oneOf (texts : List String) : Regex := .choice (texts.map lit)

/-- A variable, an equals sign, and the rest of the line. -/
def assignment : List Regex :=
  [.capture 1 (run1 .word), maybe (.single .blank), .single (.one '='), maybe (.single .blank),
    restOfLine]

theorem closedVariable_build? (names : List Text) :
    closedVariable.build? [(vars, names)] =
      some (Around.fill (.sequence [boundary] (.capture 1 .hole) (letters ".close()"))
        (slot names)) := by
  -- the slot stands in a capturing group, which opens at the first character behind the bracket
  obtain ⟨x, rest, hx, hcons⟩ := exists_injection_eq_cons (t := closedVariable) rfl names
    "\\.close\\(\\)".toList
  have hsource : ∀ filling, Text.replaceAll vars filling closedVariable.source =
      "\\b(".toList ++ (filling ++ ')' :: "\\.close\\(\\)".toList) := fun _ => rfl
  have hleft : Reader.initial.readAll "\\b(".toList =
      some ⟨false, 0, ⟨none, [], [boundary]⟩, [], .opened⟩ := rfl
  show Regex.ofSource? (Text.replaceAll vars (closedVariable.injection names) _) = _
  rw [hsource, Regex.ofSource?, Reader.readAll_append, hleft, Option.bind_some, hcons,
    Reader.readAll_opened _ _ _ _ hx, ← hcons, Reader.readAll_slot _ _ _ _ rfl]
  rfl

theorem classVariable_build? (names : List Text) :
    classVariable.build? [(vars, names)] =
      some (Around.fill (.sequence assignment .hole []) (slot names)) :=
  build?_of_slot "(\\w+)\\s?=\\s?.*(?:".toList [] rfl (fun _ => rfl) rfl (fun _ => rfl) names

theorem classDirect_build? (names : List Text) :
    classDirect.build? [(vars, names)] =
      some (Around.fill
        (.sequence []
          (.capture 1 (.sequence [] .hole
            [maybe (.sequence [.single (.anyOf "\"'"), .single (.one ')')])]))
          (letters "."))
        (slot names)) :=
  build?_of_slot "((?:".toList "(?:[\"']\\))?)\\.".toList rfl (fun _ => rfl) rfl (fun _ => rfl)
    names

theorem sfraVersion_build? (names : List Text) :
    sfraVersion.build? [(vars, names)] =
      some (Around.fill (.sequence (letters "sfra" ++ [run .notDigit]) .hole []) (slot names)) :=
  build?_of_slot "sfra\\D*(?:".toList [] rfl (fun _ => rfl) rfl (fun _ => rfl) names

theorem platformVersion_build? (names : List Text) :
    platformVersion.build? [(vars, names)] =
      some (Around.fill
        (.sequence [oneOf ["sfcc", "salesforce", "api", "platform"], run .notDigit] .hole [])
        (slot names)) :=
  build?_of_slot "(?:sfcc|salesforce|api|platform)\\D*(?:".toList [] rfl (fun _ => rfl) rfl
    (fun _ => rfl) names

theorem sitegenVersion_build? (names : List Text) :
    sitegenVersion.build? [(vars, names)] =
      some (Around.fill
        (.sequence [oneOf ["sitegen", "genes", "sg"], between 0 25 (.single .notDigit)] .hole [])
        (slot names)) :=
  build?_of_slot "(?:sitegen|genes|sg)\\D\x7b0,25\x7d(?:".toList [] rfl (fun _ => rfl) rfl
    (fun _ => rfl) names

theorem compatibilityMode_build? (names : List Text) :
    compatibilityMode.build? [(vars, names)] =
      some (Around.fill (.sequence (letters "compatibility" ++ [run .notDigit]) .hole [])
        (slot names)) :=
  build?_of_slot "compatibility\\D*(?:".toList [] rfl (fun _ => rfl) rfl (fun _ => rfl) names

theorem cartridgeVersion_build? (names : List Text) :
    cartridgeVersion.build? [(vars, names)] = some (slot names) :=
  build?_of_slot (c := .hole) "(?:".toList [] rfl (fun _ => rfl) rfl (fun _ => rfl) names

/-- The names of a session: those given, and `session` itself. -/
def sessionNames (names : List Text) : List Regex := names.map literal ++ [lit "session"]

/-- What is around the name of a session: a line, and the access to a custom
attribute behind the name or behind a call that returns the session. -/
def aroundSession : Around :=
  .sequence [.assert .lineStart, .many .inLine true]
    (.choice (.sequence [boundary] .hole []) [lit "request.getSession()"])
    [.single (.one '.'),
      .choice [.sequence (letters "custom" ++ [.single .notWord]), lit "getCustom()"],
      .many .inLine true, .assert .lineEnd]

set_option maxRecDepth 1000 in
theorem sessionCustom_build? (names : List Text) :
    sessionCustom.build? [(vars, names)] =
      some (aroundSession.fill (.choice (sessionNames names))) := by
  have hsource : ∀ filling, Text.replaceAll vars filling sessionCustom.source =
      "(?m)^.*?(?:\\b(?:".toList ++ (filling ++
        ("session)|request\\.getSession\\(\\))" ++
          "\\.(?:custom\\W|getCustom\\(\\)).*?$").toList) := fun _ => rfl
  have hleft : Reader.initial.readAll "(?m)^.*?(?:\\b(?:".toList =
      some ⟨true, 0, .opening none, [⟨none, [], [boundary]⟩,
        ⟨none, [], [.many .inLine true, .assert .lineStart]⟩], .plain⟩ := rfl
  -- the alternatives before the last are kept latest first
  have hright : ∀ done : List Regex, (Reader.readAll
      ⟨true, 0, ⟨none, done, []⟩, [⟨none, [], [boundary]⟩,
        ⟨none, [], [.many .inLine true, .assert .lineStart]⟩], .plain⟩
      ("session)|request\\.getSession\\(\\))" ++
        "\\.(?:custom\\W|getCustom\\(\\)).*?$").toList).bind Reader.finish =
      some (aroundSession.fill (.choice (lit "session" :: done).reverse)) := fun _ => rfl
  show Regex.ofSource? (Text.replaceAll vars (sessionCustom.injection names) _) = _
  rw [injection_eq_barred rfl, hsource, Regex.ofSource?, Reader.readAll_append, hleft,
    Option.bind_some, Frame.opening, Reader.readAll_barred, hright]
  simp [sessionNames]

/-- What is around the two slots of a call. -/
def callOf (holder method : Regex) : Regex :=
  .sequence (assignment ++ [holder, .single (.one '.'), method, boundary])

theorem methodCallSaved_build? (holders names : List Text) :
    methodCallSaved.build? [(vars, holders), (methods, names)] =
      some (callOf (slot holders) (slot names)) := by
  have hvars : ∀ filling, Text.replaceAll vars filling methodCallSaved.source =
      "(\\w+)\\s?=\\s?.*(?:".toList ++ (filling ++ ')' :: "\\.(?:{methods})\\b".toList) :=
    fun _ => rfl
  have hmethods : ∀ filling, Text.replaceFrom methods filling 0 "\\.(?:{methods})\\b".toList =
      "\\.(?:".toList ++ (filling ++ ')' :: "\\b".toList) := fun _ => rfl
  have hfilled : methodCallSaved.filled [(vars, holders), (methods, names)] =
      "(\\w+)\\s?=\\s?.*(?:".toList ++ (methodCallSaved.injection holders ++ ')' ::
        ("\\.(?:".toList ++ (methodCallSaved.injection names ++ ')' :: "\\b".toList))) := by
    show Text.replaceAll methods (methodCallSaved.injection names)
      (Text.replaceAll vars (methodCallSaved.injection holders) methodCallSaved.source) = _
    rw [hvars, Text.replaceAll, replaceFrom_append isSlot_methods (by decide),
      replaceFrom_injection isSlot_methods (by decide) (by decide) rfl, hmethods]
  have hleft : Reader.initial.readAll "(\\w+)\\s?=\\s?.*(?:".toList =
      some ⟨false, 1, .opening none, [⟨none, [], assignment.reverse⟩], .plain⟩ := rfl
  have hmiddle : ∀ r, Reader.readAll ⟨false, 1, ⟨none, [], r :: assignment.reverse⟩, [], .plain⟩
      "\\.(?:".toList = some ⟨false, 1, .opening none,
        [⟨none, [], .single (.one '.') :: r :: assignment.reverse⟩], .plain⟩ := fun _ => rfl
  rw [build?, hfilled, Regex.ofSource?, Reader.readAll_append, hleft, Option.bind_some,
    Reader.readAll_slot _ _ _ _ rfl, Reader.readAll_append, Frame.group, hmiddle,
    Option.bind_some, Reader.readAll_slot _ _ _ _ rfl]
  rfl

/-! ### Templates find what they find with one name -/

/-- A template, with its slots filled, is an expression that is found in a text. -/
def FindsIn (t : Template) (slots : List (Text × List Text)) (u : Text) : Prop :=
  ∃ r, t.build slots = .ok r ∧ r.isMatch u = true

/-- Whether a template has one slot and no suffix. -/
def isBare (t : Template) : Bool := t.suffix.isEmpty && !Text.contains t.source methods

section

variable {t : Template} {slots : List (Text × List Text)} {r : Regex} {u : Text}

theorem build_eq_ok (h : t.build? slots = some r) : t.build slots = .ok r := by
  rw [build, h]

theorem findsIn_iff (h : t.build? slots = some r) : t.FindsIn slots u ↔ r.isMatch u = true := by
  constructor
  · rintro ⟨s, hs, hm⟩
    rw [build_eq_ok h] at hs
    obtain rfl := Except.ok.inj hs
    exact hm
  · exact fun hm => ⟨r, build_eq_ok h, hm⟩

end

/-- Every way in which a bare template matches leads through its slot. -/
theorem exists_around_of_isBare {t : Template} (ht : t ∈ all) (hb : t.isBare = true) :
    ∃ c : Around, c.isNarrow = true ∧
      ∀ names, t.build? [(vars, names)] = some (c.fill (slot names)) := by
  have hbare : t ∈ all.filter isBare := List.mem_filter.2 ⟨ht, hb⟩
  have hlist : all.filter isBare = [closedVariable, classVariable, classDirect, sfraVersion,
      platformVersion, sitegenVersion, compatibilityMode, cartridgeVersion] := by decide +kernel
  rw [hlist] at hbare
  simp only [List.mem_cons, List.not_mem_nil, or_false] at hbare
  rcases hbare with rfl | rfl | rfl | rfl | rfl | rfl | rfl | rfl
  · exact ⟨_, rfl, closedVariable_build?⟩
  · exact ⟨_, rfl, classVariable_build?⟩
  · exact ⟨_, rfl, classDirect_build?⟩
  · exact ⟨_, rfl, sfraVersion_build?⟩
  · exact ⟨_, rfl, platformVersion_build?⟩
  · exact ⟨_, rfl, sitegenVersion_build?⟩
  · exact ⟨_, rfl, compatibilityMode_build?⟩
  · exact ⟨.hole, rfl, cartridgeVersion_build?⟩

theorem slot_isMatch_iff {names : List Text} {u : Text} :
    (slot names).isMatch u = true ↔ ∃ name ∈ names, name <:+: u := by
  have hone : ∀ name, (slot [name]).isMatch u = true ↔ name <:+: u := by
    intro name
    exact literal_isMatch_iff
  simp only [← hone]
  exact Around.fill_slot_isMatch (c := .hole) rfl names u

theorem aroundSession_isMatch_iff {names : List Text} {u : Text} :
    (aroundSession.fill (.choice (sessionNames names))).isMatch u = true ↔
      (aroundSession.fill (.choice (sessionNames []))).isMatch u = true ∨
        ∃ name ∈ names, (aroundSession.fill (.choice (sessionNames [name]))).isMatch u = true := by
  -- each side says that some name of a session is used, the fixed one or a given one
  have hsome : ∀ names, (aroundSession.fill (.choice (sessionNames names))).isMatch u = true ↔
      (∃ name ∈ names, (aroundSession.fill (literal name)).isMatch u = true) ∨
        (aroundSession.fill (lit "session")).isMatch u = true := by
    intro names
    have hne : sessionNames names ≠ [] := by simp [sessionNames]
    rw [aroundSession.fill_choice_isMatch hne, sessionNames]
    constructor
    · rintro ⟨r, hr, hm⟩
      rcases List.mem_append.1 hr with hgiven | hfixed
      · obtain ⟨name, hname, rfl⟩ := List.mem_map.1 hgiven
        exact .inl ⟨name, hname, hm⟩
      · exact .inr (List.mem_singleton.1 hfixed ▸ hm)
    · rintro (⟨name, hname, hm⟩ | hm)
      · exact ⟨literal name, List.mem_append_left _ (List.mem_map_of_mem hname), hm⟩
      · exact ⟨lit "session", List.mem_append_right _ (List.mem_singleton.2 rfl), hm⟩
  simp only [hsome]
  constructor
  · rintro (⟨name, hname, h⟩ | h)
    · exact .inr ⟨name, hname, .inl ⟨name, List.mem_singleton.2 rfl, h⟩⟩
    · exact .inl (.inr h)
  · rintro ((⟨name, hname, -⟩ | h) | ⟨name, hname, ⟨other, hother, h⟩ | h⟩)
    · cases hname
    · exact .inr h
    · exact .inl ⟨name, hname, List.mem_singleton.1 hother ▸ h⟩
    · exact .inr h

theorem callOf_isMatch_iff {holders names : List Text} {u : Text} :
    (callOf (slot holders) (slot names)).isMatch u = true ↔
      ∃ holder ∈ holders, ∃ name ∈ names,
        (callOf (slot [holder]) (slot [name])).isMatch u = true := by
  have hholder : ∀ h m, callOf h m =
      Around.fill (.sequence assignment .hole [.single (.one '.'), m, boundary]) h := by
    intro h m
    rfl
  have hname : ∀ h m, callOf h m =
      Around.fill (.sequence (assignment ++ [h, .single (.one '.')]) .hole [boundary]) m := by
    intro h m
    rfl
  rw [hholder, Around.fill_slot_isMatch rfl]
  simp only [← hholder, hname]
  constructor
  · rintro ⟨holder, hh, hm⟩
    exact ⟨holder, hh, (Around.fill_slot_isMatch rfl _ _).1 hm⟩
  · rintro ⟨holder, hh, hm⟩
    exact ⟨holder, hh, (Around.fill_slot_isMatch rfl _ _).2 hm⟩

/-- **Names in a slot are literal, and a template finds what it finds with one
of them.**  All templates can be built, whatever the names are. -/
theorem injection_distributes (ids : List Text) (u : Text) :
    (∃ r, cartridgeVersion.build [(vars, ids)] = .ok r ∧
      (r.isMatch u = true ↔ ∃ id ∈ ids, id <:+: u)) ∧
    (∀ t ∈ all, t.isBare = true →
      ∃ r, t.build [(vars, ids)] = .ok r ∧
        (r.isMatch u = true ↔ ∃ id ∈ ids, t.FindsIn [(vars, [id])] u)) ∧
    (∃ r, sessionCustom.build [(vars, ids)] = .ok r ∧
      (r.isMatch u = true ↔ sessionCustom.FindsIn [(vars, [])] u ∨
        ∃ id ∈ ids, sessionCustom.FindsIn [(vars, [id])] u)) ∧
    (∀ names, ∃ r, methodCallSaved.build [(vars, ids), (methods, names)] = .ok r ∧
      (r.isMatch u = true ↔ ∃ id ∈ ids, ∃ name ∈ names,
        methodCallSaved.FindsIn [(vars, [id]), (methods, [name])] u)) := by
  refine ⟨?_, ?_, ?_, ?_⟩
  · exact ⟨_, build_eq_ok (cartridgeVersion_build? ids), slot_isMatch_iff⟩
  · intro t ht hb
    obtain ⟨c, hc, hbuild⟩ := exists_around_of_isBare ht hb
    refine ⟨_, build_eq_ok (hbuild ids), ?_⟩
    simp only [findsIn_iff (hbuild _)]
    exact c.fill_slot_isMatch hc ids u
  · refine ⟨_, build_eq_ok (sessionCustom_build? ids), ?_⟩
    simp only [findsIn_iff (sessionCustom_build? _)]
    exact aroundSession_isMatch_iff
  · intro names
    refine ⟨_, build_eq_ok (methodCallSaved_build? ids names), ?_⟩
    simp only [findsIn_iff (methodCallSaved_build? _ _)]
    exact callOf_isMatch_iff

/-- Of two names with notation in them, the one that occurs is found. -/
theorem injection_distributes_notation :
    classDirect ∈ all ∧ classDirect.isBare = true ∧
      classDirect.FindsIn [(vars, ["a|b)*".toList, "get('x".toList])] "get('x').y".toList := by
  have hall : classDirect ∈ all := by decide +kernel
  have hbare : classDirect.isBare = true := by decide +kernel
  refine ⟨hall, hbare, ?_⟩
  obtain ⟨-, hbares, -⟩ := injection_distributes ["a|b)*".toList, "get('x".toList]
    "get('x').y".toList
  obtain ⟨r, hr, hiff⟩ := hbares classDirect hall hbare
  refine ⟨r, hr, hiff.2 ⟨"get('x".toList, by simp, ?_⟩⟩
  exact (findsIn_iff (classDirect_build? _)).2 (by decide +kernel)

end Template

end CartridgeAudit.Pattern
