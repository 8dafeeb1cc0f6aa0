/-
CartridgeAudit/Proofs/Pattern/Filling.lean

Slots are filled one after the other, as if all at once.

Each slot is filled by replacing its name everywhere, so a later slot is looked for
in a text that holds what has filled the earlier ones.  Nothing is found there that
was not a slot of the source: a name is escaped, so no slot ends in it
(`replaceFrom_injection`), and the text around a slot neither holds a slot nor
completes one that is begun in a name (`Framed`).

One step over the parts of a source fills the open slots of one name and keeps all
else (`replaceAll_filled`); a run of steps therefore gives each slot what is given
for it first, in whatever order the slots are filled (`filled_eq_parts`).  Main
result: `filled_hygienically`.
-/
import CartridgeAudit.Proofs.Pattern.Injection
import Mathlib.Data.List.Infix
import Mathlib.Data.List.Induction

namespace CartridgeAudit.Pattern

/-! ### Replacing around what stays -/

section

variable {needle replacement : Text}

/-- Text in which the needle begins nowhere is kept. -/
theorem replaceFrom_append_of_not_prefix {u rest : Text}
    (h : ∀ v, v <:+ u → v ≠ [] → ¬ needle <+: v ++ rest) :
    Text.replaceFrom needle replacement 0 (u ++ rest) =
      u ++ Text.replaceFrom needle replacement 0 rest := by
  induction u with
  | nil => rfl
  | cons c u ih =>
    have hno : ¬ needle.isPrefixOf (c :: (u ++ rest)) = true := by
      rw [List.isPrefixOf_iff_prefix]
      exact h (c :: u) List.suffix_rfl (List.cons_ne_nil c u)
    rw [List.cons_append, Text.replaceFrom, if_neg hno,
      ih fun v hv => h v (hv.trans (List.suffix_cons c u)), List.cons_append]

/-- Text without the needle is kept. -/
theorem replaceFrom_of_not_infix {u : Text} (h : ¬ needle <:+: u) :
    Text.replaceFrom needle replacement 0 u = u := by
  have hkeep : Text.replaceFrom needle replacement 0 (u ++ []) =
      u ++ Text.replaceFrom needle replacement 0 [] := by
    apply replaceFrom_append_of_not_prefix
    intro v hv _ hbegins
    rw [List.append_nil] at hbegins
    exact h (hbegins.isInfix.trans hv.isInfix)
  rwa [Text.replaceFrom, List.append_nil] at hkeep

theorem replaceFrom_skip (u rest : Text) :
    Text.replaceFrom needle replacement u.length (u ++ rest) =
      Text.replaceFrom needle replacement 0 rest := by
  induction u with
  | nil => rfl
  | cons c u ih => rw [List.cons_append, List.length_cons, Text.replaceFrom, ih]

/-- The needle gives way to the replacement, which is not looked at again. -/
theorem replaceFrom_needle_append (hne : needle ≠ []) (rest : Text) :
    Text.replaceFrom needle replacement 0 (needle ++ rest) =
      replacement ++ Text.replaceFrom needle replacement 0 rest := by
  obtain ⟨c, body, rfl⟩ := List.exists_cons_of_ne_nil hne
  have hbegins : (c :: body).isPrefixOf (c :: (body ++ rest)) = true :=
    List.isPrefixOf_iff_prefix.2 (List.prefix_append (c :: body) rest)
  rw [List.cons_append, Text.replaceFrom, if_pos hbegins, List.length_cons, Nat.add_sub_cancel,
    replaceFrom_skip]

/-- A slot has its opening brace in front only. -/
theorem IsSlot.exists_cons (hn : IsSlot needle) :
    ∃ tail, needle = '\x7b' :: tail ∧ '\x7b' ∉ tail := by
  obtain ⟨body, rfl, hbody⟩ := hn
  refine ⟨body ++ ['\x7d'], rfl, fun hmem => ?_⟩
  rcases List.mem_append.1 hmem with hmem | hmem
  · exact absurd (hbody _ hmem) (by decide)
  · exact absurd (List.mem_singleton.1 hmem) (by decide)

/-- Two occurrences of a slot do not overlap, so none begins in front of one. -/
theorem IsSlot.not_prefix_append {v rest : Text} (hn : IsSlot needle) (hv : v ≠ [])
    (hno : ¬ needle <+: v) : ¬ needle <+: v ++ (needle ++ rest) := by
  intro h
  obtain ⟨tail, hneedle, htail⟩ := hn.exists_cons
  obtain ⟨c, v, rfl⟩ := List.exists_cons_of_ne_nil hv
  rcases List.prefix_or_prefix_of_prefix h (List.prefix_append (c :: v) _) with hin | ⟨w, hw⟩
  · exact hno hin
  · cases w with
    | nil => exact hno (by rw [← hw, List.append_nil])
    | cons x w =>
      -- what is left of the slot behind `v` would begin with a brace
      have hrest : x :: w <+: needle ++ rest := by
        rwa [← hw, List.prefix_append_right_inj, hw] at h
      rw [hneedle] at hw hrest
      obtain rfl : x = '\x7b' := (List.cons_prefix_cons.1 hrest).1
      have hmem : '\x7b' ∈ v ++ '\x7b' :: w := List.mem_append_right v List.mem_cons_self
      exact htail ((List.cons.inj hw).2 ▸ hmem)

end

namespace Template

/-! ### The parts of a source -/

/-- A part of the source of a template: text that stays, or a slot. -/
inductive Part
  | kept (u : Text)
  | slot (name : Text)

/-- The slots that templates have. -/
def slotNames : List Text := [vars, methods]

namespace Part

/-- A part as it stands in the source. -/
def written : Part → Text
  | kept u => u
  | slot name => name

/-- A part once slots are filled: text stays, and a slot gives way to what is given
for it first. A slot for which nothing is given stays open. -/
def filled (t : Template) (slots : List (Text × List Text)) : Part → Text
  | kept u => u
  | slot name =>
      match slots.lookup name with
      | some names => t.injection names
      | none => name

end Part

theorem isSlot_vars : IsSlot vars := @isSlot_of_all "vars".toList (by decide)

theorem isSlot_of_mem {name : Text} (h : name ∈ slotNames) : IsSlot name := by
  rcases List.mem_cons.1 h with rfl | h
  · exact isSlot_vars
  · exact List.mem_singleton.1 h ▸ isSlot_methods

/-- Text that no slot begins in, whatever stands behind it. -/
def IsShut (u : Text) : Prop :=
  ∀ name ∈ slotNames, ∀ v ∈ u.tails, v ≠ [] → ¬ name <+: v ∧ ¬ v <+: name

instance (u : Text) : Decidable (IsShut u) := by
  unfold IsShut
  infer_instance

/-- Parts around which slots can be filled: no slot begins in the text, and what
fills a slot is closed off, by the bracket behind it or by the bar behind its last
name. -/
inductive Framed (suffix : Text) : List Part → Prop
  | nil : Framed suffix []
  | kept {u : Text} {ps : List Part} : IsShut u → Framed suffix ps → Framed suffix (.kept u :: ps)
  | bracketed {name u : Text} {ps : List Part} : suffix = [] → name ∈ slotNames →
      IsShut (')' :: u) → Framed suffix ps → Framed suffix (.slot name :: .kept (')' :: u) :: ps)
  | barred {name : Text} {ps : List Part} : suffix = ['|'] → name ∈ slotNames →
      Framed suffix ps → Framed suffix (.slot name :: ps)

/-! ### One slot after the other -/

section

variable {t : Template} {slots : List (Text × List Text)} {name needle : Text}
  {names : List Text}

theorem replaceFrom_of_isShut {u : Text} (hu : IsShut u) (hneedle : needle ∈ slotNames)
    (replacement rest : Text) :
    Text.replaceFrom needle replacement 0 (u ++ rest) =
      u ++ Text.replaceFrom needle replacement 0 rest := by
  refine replaceFrom_append_of_not_prefix fun v hv hne h => ?_
  obtain ⟨hno, hon⟩ := hu needle hneedle v ((List.mem_tails v u).2 hv) hne
  rcases List.prefix_or_prefix_of_prefix h (List.prefix_append v rest) with h | h
  · exact hno h
  · exact hon h

/-- A slot is kept when another one is filled. -/
theorem replaceFrom_other_slot (hname : name ∈ slotNames) (hneedle : needle ∈ slotNames)
    (hne : name ≠ needle) (replacement rest : Text) :
    Text.replaceFrom needle replacement 0 (name ++ rest) =
      name ++ Text.replaceFrom needle replacement 0 rest := by
  have happart : ∀ a ∈ slotNames, ∀ b ∈ slotNames, a ≠ b → ∀ v ∈ a.tails, v ≠ [] →
      ¬ b <+: v ∧ ¬ v <+: b := by decide +kernel
  refine replaceFrom_append_of_not_prefix fun v hv hv' h => ?_
  obtain ⟨hno, hon⟩ := happart name hname needle hneedle hne v ((List.mem_tails v name).2 hv) hv'
  rcases List.prefix_or_prefix_of_prefix h (List.prefix_append v rest) with h | h
  · exact hno h
  · exact hon h

/-- The step at a slot: it is filled if it is open and has the name that is looked
for, and it stays as it is otherwise. -/
theorem replaceFrom_slot (hname : name ∈ slotNames) (hneedle : needle ∈ slotNames) {rest : Text}
    (hkeep : ∀ ids, Text.replaceFrom needle (t.injection names) 0 (t.injection ids ++ rest) =
      t.injection ids ++ Text.replaceFrom needle (t.injection names) 0 rest) :
    Text.replaceFrom needle (t.injection names) 0 (Part.filled t slots (.slot name) ++ rest) =
      Part.filled t (slots ++ [(needle, names)]) (.slot name) ++
        Text.replaceFrom needle (t.injection names) 0 rest := by
  have hlookup : (slots ++ [(needle, names)]).lookup name =
      (slots.lookup name).or (if name = needle then some names else none) := by
    rw [List.lookup_append, List.lookup_cons, List.lookup_nil]
    by_cases hne : name = needle
    · rw [hne, BEq.rfl, if_pos rfl]
    · rw [beq_eq_false_iff_ne.2 hne, if_neg hne]
  rw [Part.filled, Part.filled, hlookup]
  cases slots.lookup name with
  | some ids => exact hkeep ids
  | none =>
    by_cases hne : name = needle
    · subst hne
      rw [if_pos rfl]
      have hslot : name ≠ [] := by
        obtain ⟨body, rfl, -⟩ := isSlot_of_mem hname
        exact List.cons_ne_nil _ _
      exact replaceFrom_needle_append hslot rest
    · rw [if_neg hne]
      exact replaceFrom_other_slot hname hneedle hne _ rest

theorem not_mem_slotNames : ∀ name ∈ slotNames, '|' ∉ name ∧ ')' ∉ name := by decide +kernel

/-- **The step over a source**: the open slots of one name are filled, and all else
is kept. -/
theorem replaceAll_filled {ps : List Part} (h : Framed t.suffix ps) (hneedle : needle ∈ slotNames) :
    Text.replaceAll needle (t.injection names) (ps.flatMap (Part.filled t slots)) =
      ps.flatMap (Part.filled t (slots ++ [(needle, names)])) := by
  obtain ⟨hbar, hbracket⟩ := not_mem_slotNames needle hneedle
  have hslot := isSlot_of_mem hneedle
  unfold Text.replaceAll
  induction h with
  | nil => rfl
  | kept hu _ ih =>
    rw [List.flatMap_cons, List.flatMap_cons, Part.filled, Part.filled,
      replaceFrom_of_isShut hu hneedle, ih]
  | @bracketed name u ps hsuffix hname hu _ ih =>
    rw [List.flatMap_cons, List.flatMap_cons, replaceFrom_slot hname hneedle, List.flatMap_cons,
      List.flatMap_cons, Part.filled, Part.filled, replaceFrom_of_isShut hu hneedle, ih]
    intro ids
    rw [Part.filled, List.cons_append, replaceFrom_injection hslot hbar hbracket hsuffix,
      replaceFrom_cons hslot (by decide)]
  | @barred name ps hsuffix hname _ ih =>
    rw [List.flatMap_cons, List.flatMap_cons, replaceFrom_slot hname hneedle, ih]
    intro ids
    rw [injection_eq_barred hsuffix ids, replaceFrom_barred_append hslot hbar]

/-- **Slots are filled as if all at once**: text stays, and each slot holds what is
given for it first, however often and in whatever order slots are filled. -/
theorem filled_eq_parts {ps : List Part} (hsource : t.source = ps.flatMap Part.written)
    (h : Framed t.suffix ps) (hslots : ∀ s ∈ slots, s.1 ∈ slotNames) :
    t.filled slots = ps.flatMap (Part.filled t slots) := by
  induction slots using List.reverseRecOn with
  | nil =>
    have hopen : Part.filled t [] = Part.written := by
      funext p
      cases p <;> rfl
    rw [hopen, ← hsource]
    rfl
  | append_singleton slots s ih =>
    obtain ⟨hrest, hs⟩ := List.forall_mem_append.1 hslots
    have hstep : t.filled (slots ++ [s]) =
        Text.replaceAll s.1 (t.injection s.2) (t.filled slots) := by
      rw [filled, List.foldl_append]
      rfl
    rw [hstep, ih hrest, replaceAll_filled h (hs s (List.mem_singleton_self s))]

end

/-! ### The templates of the auditor -/

/-- No slot stands in a text. -/
def HasNoSlot (u : Text) : Prop := ∀ name ∈ slotNames, ¬ name <:+: u

theorem IsShut.hasNoSlot {u : Text} (hu : IsShut u) : HasNoSlot u := by
  intro name hname h
  obtain ⟨v, hbegins, hends⟩ := List.infix_iff_prefix_suffix.1 h
  have hne : v ≠ [] := by
    rintro rfl
    obtain ⟨tail, hcons, -⟩ := (isSlot_of_mem hname).exists_cons
    rw [hcons, List.prefix_nil] at hbegins
    cases hbegins
  exact (hu name hname v ((List.mem_tails v u).2 hends) hne).1 hbegins

/-- The text of a source between its slots has no slot in it. -/
theorem Framed.hasNoSlot {suffix : Text} {ps : List Part} (h : Framed suffix ps) :
    ∀ u, .kept u ∈ ps → HasNoSlot u := by
  induction h with
  | nil => simp
  | kept hu _ ih =>
    simp only [List.mem_cons, Part.kept.injEq, forall_eq_or_imp]
    exact ⟨hu.hasNoSlot, ih⟩
  | bracketed _ _ hu _ ih =>
    simp only [List.mem_cons, reduceCtorEq, false_or, Part.kept.injEq, forall_eq_or_imp]
    exact ⟨hu.hasNoSlot, ih⟩
  | barred _ _ _ ih =>
    simp only [List.mem_cons, reduceCtorEq, false_or]
    exact ih

/-- A slot for identifiers that is alone in its group. -/
theorem framed_group {left right : Text} (hleft : IsShut left) (hright : IsShut (')' :: right)) :
    Framed [] [.kept left, .slot vars, .kept (')' :: right)] :=
  .kept hleft (.bracketed rfl (by simp [slotNames]) hright .nil)

/-- The source of a call up to its first slot. -/
def callHead : Text := "(\\w+)\\s?=\\s?.*(?:".toList

/-- The source of a call between its slots. -/
def callMiddle : Text := ")\\.(?:".toList

/-- The source of a call behind its last slot. -/
def callTail : Text := ")\\b".toList

/-- The parts of the template with two slots. -/
def callParts : List Part :=
  [.kept callHead, .slot vars, .kept callMiddle, .slot methods, .kept callTail]

theorem framed_callParts : Framed [] callParts :=
  .kept (by decide +kernel) <| .bracketed rfl (by simp [slotNames]) (by decide +kernel) <|
    .bracketed rfl (by simp [slotNames]) (by decide +kernel) .nil

/-- All templates have their slots framed. -/
theorem exists_framed {t : Template} (ht : t ∈ all) :
    ∃ ps : List Part, t.source = ps.flatMap Part.written ∧ Framed t.suffix ps := by
  have hgroup : ∀ left right : Text, t.source = left ++ (vars ++ ')' :: right) → t.suffix = [] →
      IsShut left ∧ IsShut (')' :: right) →
      ∃ ps : List Part, t.source = ps.flatMap Part.written ∧ Framed t.suffix ps := by
    rintro left right hsource hsuffix ⟨hleft, hright⟩
    refine ⟨[.kept left, .slot vars, .kept (')' :: right)], ?_, ?_⟩
    · simpa [Part.written] using hsource
    · rw [hsuffix]
      exact framed_group hleft hright
  simp only [all, List.mem_cons, List.not_mem_nil, or_false] at ht
  rcases ht with rfl | rfl | rfl | rfl | rfl | rfl | rfl | rfl | rfl | rfl
  · -- the slot of a session stands before a further name, and its suffix closes it off
    refine ⟨[.kept "(?m)^.*?(?:\\b(?:".toList, .slot vars,
      .kept ("session)|request\\.getSession\\(\\))" ++
        "\\.(?:custom\\W|getCustom\\(\\)).*?$").toList], rfl, ?_⟩
    exact .kept (by decide +kernel)
      (.barred rfl (by simp [slotNames]) (.kept (by decide +kernel) .nil))
  · exact hgroup "\\b(".toList "\\.close\\(\\)".toList rfl rfl (by decide +kernel)
  · exact ⟨callParts, rfl, framed_callParts⟩
  · exact hgroup "(\\w+)\\s?=\\s?.*(?:".toList [] rfl rfl (by decide +kernel)
  · exact hgroup "((?:".toList "(?:[\"']\\))?)\\.".toList rfl rfl (by decide +kernel)
  · exact hgroup "sfra\\D*(?:".toList [] rfl rfl (by decide +kernel)
  · exact hgroup "(?:sfcc|salesforce|api|platform)\\D*(?:".toList [] rfl rfl (by decide +kernel)
  · exact hgroup "(?:sitegen|genes|sg)\\D\x7b0,25\x7d(?:".toList [] rfl rfl (by decide +kernel)
  · exact hgroup "compatibility\\D*(?:".toList [] rfl rfl (by decide +kernel)
  · exact hgroup "(?:".toList [] rfl rfl (by decide +kernel)

/-- The source of a call with a filling for each of its slots. -/
def callSource (holders names : Text) : Text :=
  callHead ++ (holders ++ (callMiddle ++ (names ++ callTail)))

/-- The two slots of a call are filled independently of each other, in either order. -/
theorem filled_call (ids names : List Text) {slots : List (Text × List Text)}
    (h : slots ∈ [[(vars, ids), (methods, names)], [(methods, names), (vars, ids)]]) :
    methodCallSaved.filled slots =
      callSource (methodCallSaved.injection ids) (methodCallSaved.injection names) := by
  simp only [List.mem_cons, List.not_mem_nil, or_false] at h
  -- in either list each slot is found
  rcases h with rfl | rfl
  · rw [filled_eq_parts rfl framed_callParts (by simp [slotNames])]
    rfl
  · rw [filled_eq_parts rfl framed_callParts (by simp [slotNames])]
    rfl

/-- A template with one slot is filled there and nowhere else. -/
theorem filled_alone {t : Template} {left right : Text}
    (hsource : t.source = left ++ (vars ++ right)) (hleft : ¬ vars <:+: left)
    (hright : ¬ vars <:+: right) (ids : List Text) :
    t.filled [(vars, ids)] = left ++ (t.injection ids ++ right) := by
  show Text.replaceAll vars (t.injection ids) t.source = _
  rw [hsource, Text.replaceAll, replaceFrom_append_of_not_prefix,
    replaceFrom_needle_append (by decide), replaceFrom_of_not_infix hright]
  intro v hv hne
  refine isSlot_vars.not_prefix_append hne fun hbegins => hleft ?_
  exact hbegins.isInfix.trans hv.isInfix

/-- **Slots are filled hygienically**, whatever the names are.  A call is built from
its source with the names in its two slots and nothing else changed, in either order.
In every template of the auditor the text between the slots stays and each slot holds
what is given for it first, whatever is filled in behind.  And in any template with
one slot what fills it is left as it is. -/
theorem filled_hygienically :
    (methodCallSaved.source = callSource vars methods ∧
      (∀ u ∈ [callHead, callMiddle, callTail], HasNoSlot u) ∧
      ∀ ids names, ∀ slots ∈ [[(vars, ids), (methods, names)], [(methods, names), (vars, ids)]],
        methodCallSaved.filled slots =
          callSource (methodCallSaved.injection ids) (methodCallSaved.injection names) ∧
        ∃ r, methodCallSaved.build slots = .ok r ∧
          Regex.ofSource? (callSource (methodCallSaved.injection ids)
            (methodCallSaved.injection names)) = some r) ∧
    (∀ t ∈ all, ∃ ps : List Part, t.source = ps.flatMap Part.written ∧
      (∀ u, .kept u ∈ ps → HasNoSlot u) ∧
      ∀ slots, (∀ s ∈ slots, s.1 ∈ slotNames) →
        t.filled slots = ps.flatMap (Part.filled t slots)) ∧
    ∀ (t : Template) (left right : Text), t.source = left ++ (vars ++ right) →
      ¬ vars <:+: left → ¬ vars <:+: right →
      ∀ ids, t.filled [(vars, ids)] = left ++ (t.injection ids ++ right) := by
  refine ⟨⟨rfl, ?_, ?_⟩, ?_, ?_⟩
  · intro u hu
    refine framed_callParts.hasNoSlot u ?_
    simp only [List.mem_cons, List.not_mem_nil, or_false] at hu
    simpa [callParts] using hu
  · intro ids names slots hslots
    have hfilled := filled_call ids names hslots
    -- both orders come to the source that is known to be built
    have hbuilt := methodCallSaved_build? ids names
    rw [build?, filled_call ids names List.mem_cons_self] at hbuilt
    refine ⟨hfilled, _, build_eq_ok ?_, hbuilt⟩
    rw [build?, hfilled, hbuilt]
  · intro t ht
    obtain ⟨ps, hsource, hframed⟩ := exists_framed ht
    exact ⟨ps, hsource, hframed.hasNoSlot, fun slots => filled_eq_parts hsource hframed⟩
  · exact fun t left right hsource hleft hright => filled_alone hsource hleft hright

/-- Names that are written like slots stay names. -/
theorem filled_hygienically_slotNames :
    [(methods, [vars]), (vars, [methods])] ∈
        [[(vars, [methods]), (methods, [vars])], [(methods, [vars]), (vars, [methods])]] ∧
      methodCallSaved.filled [(methods, [vars]), (vars, [methods])] =
        "(\\w+)\\s?=\\s?.*(?:\\\x7bmethods\\\x7d)\\.(?:\\\x7bvars\\\x7d)\\b".toList ∧
      HasNoSlot callTail ∧
      sessionCustom ∈ all ∧ (∀ s ∈ [(vars, [methods]), (methods, [vars])], s.1 ∈ slotNames) ∧
      (∃ ps : List Part, sessionCustom.source = ps.flatMap Part.written ∧
        sessionCustom.filled [(vars, [methods]), (methods, [vars])] =
          ps.flatMap (Part.filled sessionCustom [(vars, [methods]), (methods, [vars])])) ∧
      closedVariable.source = "\\b(".toList ++ (vars ++ ")\\.close\\(\\)".toList) ∧
      ¬ vars <:+: "\\b(".toList ∧ ¬ vars <:+: ")\\.close\\(\\)".toList ∧
      closedVariable.filled [(vars, [vars])] =
        "\\b(\\\x7bvars\\\x7d)\\.close\\(\\)".toList := by
  obtain ⟨⟨-, hno, hcall⟩, hall, halone⟩ := filled_hygienically
  have horder : [(methods, [vars]), (vars, [methods])] ∈
      [[(vars, [methods]), (methods, [vars])], [(methods, [vars]), (vars, [methods])]] := by simp
  have hsession : sessionCustom ∈ all := by simp [all]
  have hslots : ∀ s ∈ [(vars, [methods]), (methods, [vars])], s.1 ∈ slotNames := by
    simp [slotNames]
  have hleft : ¬ vars <:+: "\\b(".toList := by decide +kernel
  have hright : ¬ vars <:+: ")\\.close\\(\\)".toList := by decide +kernel
  obtain ⟨hfilled, -⟩ := hcall [methods] [vars] _ horder
  obtain ⟨ps, hsource, -, hps⟩ := hall sessionCustom hsession
  have hclosed := halone closedVariable _ _ rfl hleft hright [vars]
  exact ⟨horder, hfilled.trans (by decide +kernel), hno callTail (by simp), hsession, hslots,
    ⟨ps, hsource, hps _ hslots⟩, rfl, hleft, hright, hclosed.trans (by decide +kernel)⟩

end Template

end CartridgeAudit.Pattern
