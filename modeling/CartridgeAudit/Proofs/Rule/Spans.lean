/-
CartridgeAudit/Proofs/Rule/Spans.lean

Violations that are spans of a file.

Most rules report a part of the file: the text of a violation stands in the
content at the violation's offset, and the violations of a file are listed in
the order in which they stand (`Reported`).  Such parts come from matches, from
captures, from the segments of a template, and from the heads of functions; all
of them are texts between two places (`stands_upTo`) or the front of one
(`Text.Stands.of_prefix`).  Matches, segments and functions are ordered, and so
are the violations made from them (`reported_of_mapM`); where two lists are
merged, no place is in both (`reported_jobViolations`).
-/
import CartridgeAudit.Proofs.Pattern.Iteration
import CartridgeAudit.Proofs.Report.Rows
import CartridgeAudit.Proofs.Rule.Findings
import CartridgeAudit.Proofs.Script.Nesting
import CartridgeAudit.Proofs.Text.Letters

namespace CartridgeAudit

open Cursor

/-! ### Texts at an offset -/

/-- A text stands in another one at a byte offset. -/
def Text.Stands (content s : Text) (offset : Nat) : Prop :=
  ∃ before after, content = before ++ s ++ after ∧ Text.byteLength before = offset

theorem Cursor.Leads.stands {c d : Cursor} {s : Text} (h : c.Leads s d) :
    c.text.Stands s c.offset :=
  ⟨c.before.reverse, d.after, by rw [Cursor.text, h.ahead, List.append_assoc],
    Text.byteLength_reverse c.before⟩

theorem stands_upTo {c d : Cursor} (h : c ≤ d) : c.text.Stands (c.upTo d) c.offset :=
  (leads_upTo h).stands

theorem Text.Stands.of_prefix {content s p : Text} {offset : Nat} (h : content.Stands s offset)
    (hp : p <+: s) : content.Stands p offset := by
  obtain ⟨before, after, rfl, hbefore⟩ := h
  obtain ⟨rest, rfl⟩ := hp
  exact ⟨before, rest ++ after, by simp only [List.append_assoc], hbefore⟩

theorem Script.Function.LiesIn.stands_head {f : Script.Function} {t : Text} (h : f.LiesIn t) :
    t.Stands f.head f.start := by
  obtain ⟨before, after, rfl, hbefore, -⟩ := h
  exact ⟨before, f.body ++ after, by simp only [List.append_assoc], hbefore⟩

/-! ### Violations that are spans -/

/-- A violation is a span of a text: it has a text, which stands there at the
violation's offset. -/
def Violation.IsSpanOf (v : Violation) (content : Text) : Prop :=
  v.text ≠ [] ∧ content.Stands v.text v.offset

/-- Violations are spans of a text, in the order in which they stand. -/
structure Reported (content : Text) (found : List Violation) : Prop where
  isSpanOf : ∀ v ∈ found, v.IsSpanOf content
  pairwise : found.Pairwise fun v w => v.offset < w.offset

theorem Reported.sublist {content : Text} {found found' : List Violation}
    (h : Reported content found) (hsub : found'.Sublist found) : Reported content found' :=
  ⟨fun v hv => h.isSpanOf v (hsub.subset hv), h.pairwise.sublist hsub⟩

theorem Violation.isSpanOf_of_new {content text : Text} {offset : Nat} {v : Violation}
    (hstands : content.Stands text offset) (h : Violation.new text offset = .ok v) :
    v.IsSpanOf content := by
  have hmarks := Violation.new_eq_ok_iff.1 h
  rw [← hmarks.text_eq, ← hmarks.offset_eq] at hstands
  exact ⟨v.text_ne_nil, hstands⟩

/-- Violations that are made of ordered parts of a text. -/
theorem reported_of_mapM {α : Type} {l : List α} {text : α → Text} {offset : α → Nat}
    {content : Text} {found : List Violation}
    (hstands : ∀ x ∈ l, content.Stands (text x) (offset x))
    (hl : l.Pairwise fun x y => offset x < offset y)
    (h : (l.mapM fun x => Violation.new (text x) (offset x)) = .ok found) :
    Reported content found := by
  refine ⟨?_, pairwise_of_mapM_eq_ok h hl ?_⟩
  · intro v hv
    obtain ⟨x, hx, hnew⟩ := (mem_iff_of_mapM_eq_ok h).1 hv
    exact Violation.isSpanOf_of_new (hstands x hx) hnew
  · intro x hx y hy hlt v w hv hw
    rwa [(Violation.new_eq_ok_iff.1 hv).offset_eq, (Violation.new_eq_ok_iff.1 hw).offset_eq]

/-- Violations that are made of the texts between ordered places. -/
theorem reported_of_spans {spans : List (Cursor × Cursor)} {content : Text} {found : List Violation}
    (hspans : ∀ s ∈ spans, s.1.text = content ∧ s.1 ≤ s.2)
    (hsorted : spans.Pairwise fun s s' => s.1 < s'.1)
    (h : (spans.mapM fun s => Violation.new (s.1.upTo s.2) s.1.offset) = .ok found) :
    Reported content found := by
  refine reported_of_mapM ?_ (hsorted.imp ?_) h
  · intro s hs
    obtain ⟨rfl, hle⟩ := hspans s hs
    exact stands_upTo hle
  · intro s s' hlt
    exact (lt_iff_offset_lt (text_eq_of_le hlt.le).symm).1 hlt

/-- The byte offset behind a violation. -/
def Violation.stop (v : Violation) : Nat := v.offset + Text.byteLength v.text

/-- A violation is the span from one place to another. -/
structure Violation.Spans (v : Violation) (p q : Cursor) : Prop where
  text_eq : v.text = p.upTo q
  offset_eq : v.offset = p.offset
  lt : p < q

theorem Violation.Spans.stop_eq {v : Violation} {p q : Cursor} (h : v.Spans p q) :
    v.stop = q.offset := by
  rw [Violation.stop, h.text_eq, h.offset_eq, ← (leads_upTo h.lt.le).offset_eq]

/-! ### Matches -/

namespace Pattern

open Regex

theorem Match.stands {r : Regex} {t : Text} {m : Match} (h : m ∈ r.matchesIn t) :
    t.Stands m.text m.start.offset := by
  obtain ⟨rfl, -⟩ := mem_outcomes_of_mem_matchesIn h
  exact stands_upTo (le_of_matches (matches_of_mem_matchesIn h))

section

variable {r : Regex} {t : Text} {m : Match} {found : List Violation}

/-- A match of a proper expression is the span of its violation. -/
theorem Match.spans_of_marks (hr : r.isProper = true) (h : m ∈ r.matchesIn t) {v : Violation}
    (hv : v.Marks m.text m.start.offset) : v.Spans m.start m.stop :=
  ⟨hv.text_eq, hv.offset_eq, lt_of_matches hr (matches_of_mem_matchesIn h)⟩

/-- Every match of a proper expression that is not let through is reported. -/
theorem Regex.exists_violationsWhere (hr : r.isProper = true) (bad : Match → Bool) (t : Text) :
    ∃ found, r.violationsWhere bad t = .ok found ∧
      List.Forall₂ (fun m v => Violation.Marks v m.text m.start.offset)
        ((r.matchesIn t).filter bad) found :=
  Violation.exists_mapM_new _ fun _ hm => text_ne_nil_of_mem_matchesIn hr (List.mem_filter.1 hm).1

theorem Regex.exists_violations (hr : r.isProper = true) (t : Text) :
    ∃ found, r.violations t = .ok found ∧
      List.Forall₂ (fun m v => Violation.Marks v m.text m.start.offset) (r.matchesIn t) found :=
  Violation.exists_mapM_new _ fun _ hm => text_ne_nil_of_mem_matchesIn hr hm

theorem Regex.mem_violations_iff (h : r.violations t = .ok found) {v : Violation} :
    v ∈ found ↔ ∃ m ∈ r.matchesIn t, v.Marks m.text m.start.offset := by
  simp only [mem_iff_of_mapM_eq_ok h, Match.violation, Violation.new_eq_ok_iff]

/-- Violations that are matches lie apart, in order. -/
theorem Regex.pairwise_stop_le_violations (hr : r.isProper = true)
    (h : r.violations t = .ok found) : found.Pairwise fun w w' => w.stop ≤ w'.offset := by
  refine pairwise_of_mapM_eq_ok h (pairwise_stop_le_matchesIn hr t) ?_
  intro m hm n _ hle v w hv hw
  have hspans := Match.spans_of_marks hr hm (Violation.new_eq_ok_iff.1 hv)
  rw [hspans.stop_eq, (Violation.new_eq_ok_iff.1 hw).offset_eq]
  exact offset_le_of_le hle

/-- A place in a match lies in one violation, and in no other one. -/
theorem Regex.existsUnique_violation (hr : r.isProper = true) (h : r.violations t = .ok found)
    (hm : m ∈ r.matchesIn t) {u : Cursor} (hle : m.start ≤ u) (hlt : u < m.stop) :
    ∃! w, w ∈ found ∧ w.offset ≤ u.offset ∧ u.offset < w.stop := by
  obtain ⟨v, hv, hnew⟩ := exists_of_mem_of_mapM_eq_ok h hm
  have hspans := Match.spans_of_marks hr hm (Violation.new_eq_ok_iff.1 hnew)
  refine ⟨v, ⟨hv, ?_, ?_⟩, ?_⟩
  · rw [hspans.offset_eq]
    exact offset_le_of_le hle
  · rw [hspans.stop_eq]
    exact offset_lt_of_lt hlt
  · rintro w ⟨hw, hwle, hwlt⟩
    obtain ⟨n, hn, hnew'⟩ := (mem_iff_of_mapM_eq_ok h).1 hw
    have hspans' := Match.spans_of_marks hr hn (Violation.new_eq_ok_iff.1 hnew')
    rw [hspans'.offset_eq] at hwle
    rw [hspans'.stop_eq] at hwlt
    by_contra hne
    have hmn : m ≠ n := by
      rintro rfl
      exact hne (Except.ok.inj (hnew'.symm.trans hnew))
    have hu := offset_le_of_le hle
    have hu' := offset_lt_of_lt hlt
    rcases stop_le_start_or hr hm hn hmn with hmn | hnm
    · have h := offset_le_of_le hmn
      omega
    · have h := offset_le_of_le hnm
      omega

end

theorem Regex.pairwise_offset_matchesIn (r : Regex) (t : Text) :
    (r.matchesIn t).Pairwise fun m n => m.start.offset < n.start.offset :=
  (pairwise_matchesIn r t).imp fun hlt =>
    (lt_iff_offset_lt (text_eq_of_le hlt.le).symm).1 hlt

theorem Regex.reported_violationsWhere {r : Regex} {bad : Match → Bool} {t : Text}
    {found : List Violation} (h : r.violationsWhere bad t = .ok found) : Reported t found :=
  reported_of_mapM (fun _ hm => Match.stands (List.mem_filter.1 hm).1)
    ((pairwise_offset_matchesIn r t).filter bad) h

theorem Regex.reported_violations {r : Regex} {t : Text} {found : List Violation}
    (h : r.violations t = .ok found) : Reported t found :=
  reported_of_mapM (fun _ hm => Match.stands hm) (pairwise_offset_matchesIn r t) h

end Pattern

/-! ### Scripts -/

namespace Rule

open Pattern Regex

theorem reported_sessionCustomUses {t : Text} {found : List Violation}
    (h : sessionCustomUses t = .ok found) : Reported t found := by
  obtain ⟨uses, -, huses⟩ := bind_eq_ok_iff.1 h
  exact reported_violations huses

/-- Calls of different classes are listed one class after the other, so these
violations are in no order. -/
theorem isSpanOf_of_unclosedIterators {classes : List QueryClass} {t : Text}
    {found : List Violation} (h : unclosedIterators classes t = .ok found) :
    ∀ v ∈ found, v.IsSpanOf t := by
  obtain ⟨byClass, hbyClass, hfound⟩ := bind_eq_ok_iff.1 h
  obtain rfl := Except.ok.inj hfound
  intro v hv
  obtain ⟨ofClass, hmem, hv⟩ := List.mem_flatten.1 hv
  obtain ⟨k, -, hk⟩ := (mem_iff_of_mapM_eq_ok hbyClass).1 hmem
  obtain ⟨aliases, -, hk⟩ := bind_eq_ok_iff.1 hk
  split at hk
  · obtain rfl := Except.ok.inj hk
    cases hv
  · obtain ⟨calls, -, hk⟩ := bind_eq_ok_iff.1 hk
    obtain ⟨answers, hanswers, hk⟩ := bind_eq_ok_iff.1 hk
    obtain rfl := Except.ok.inj hk
    obtain ⟨answer, hanswer, rfl⟩ := List.mem_filterMap.1 hv
    obtain ⟨call, hcall, hok⟩ := (mem_iff_of_mapM_eq_ok hanswers).1 hanswer
    -- a call is reported as a whole or not at all
    obtain ⟨fs, -, hok⟩ := bind_eq_ok_iff.1 hok
    obtain ⟨closing, -, hok⟩ := bind_eq_ok_iff.1 hok
    split at hok
    · cases hok
    · obtain ⟨w, hw, hsome⟩ := bind_eq_ok_iff.1 hok
      obtain rfl := Option.some.inj (Except.ok.inj hsome)
      exact Violation.isSpanOf_of_new (Match.stands hcall) hw

end Rule

/-! ### Heads of functions -/

namespace Script

open Pattern Regex

/-- A function begins with the keyword or with its name. -/
theorem begins_functionHeader :
    Catalog.functionHeader.Begins fun ahead =>
      ∃ x xs, ahead = x :: xs ∧ Text.isBlank x = false := by
  have hkeyword : (lit "function").Begins fun ahead =>
      ∃ x xs, ahead = x :: xs ∧ Text.isBlank x = false := by
    refine (begins_literal _).imp ?_
    rintro _ ⟨rest, rfl⟩
    exact ⟨'f', _, rfl, by decide⟩
  have hname : (run1 .word).Begins fun ahead =>
      ∃ x xs, ahead = x :: xs ∧ Text.isBlank x = false := by
    refine ((begins_single .word).seq _).imp ?_
    rintro _ ⟨x, xs, rfl, hx⟩
    exact ⟨x, xs, rfl, Text.isBlank_eq_false_of_isWord (contains_word_iff.1 hx)⟩
  -- the two ways of writing a function, each from its front outwards
  exact ((hkeyword.behind .wordBoundary).seq _ |>.seq _ |>.seq _ |>.seq _).alt
    ((hname.capture 2).seq _ |>.seq _ |>.seq _ |>.seq _ |>.seq _ |>.seq _ |>.seq _)

theorem exists_head_of_mem_functions {t : Text} {fs : List Function} (h : functions t = .ok fs)
    {f : Function} (hf : f ∈ fs) : ∃ x xs, f.head = x :: xs ∧ Text.isBlank x = false := by
  have hends := ends_functions t
  rw [h] at hends
  have hne : f.head ≠ [] := by
    intro hnil
    exact hends f hf (by rw [hnil]; rfl)
  obtain ⟨header, hheader, hok⟩ := (mem_iff_of_mapM_eq_ok h).1 hf
  obtain ⟨brace, stop, hspans⟩ := Function.exists_spans_of_ofHeader hheader hok
  obtain ⟨x, xs, hahead, hx⟩ := begins_functionHeader.of_mem_matchesIn hheader
  obtain ⟨y, ys, hhead⟩ := List.exists_cons_of_ne_nil hne
  -- the head is what is ahead of the place where it was matched
  have hleads := (leads_upTo hspans.le_brace).ahead
  rw [← hspans.head_eq, hhead, hahead] at hleads
  obtain rfl : x = y := (List.cons.inj hleads).1
  exact ⟨x, ys, hhead, hx⟩

end Script

theorem Text.trim_prefix {x : Char} {xs : Text} (hx : isBlank x = false) :
    trim (x :: xs) <+: x :: xs := by
  have hstart : trimStart (x :: xs) = x :: xs := by
    rw [trimStart, List.dropWhile_cons_of_neg (by simp [hx])]
  rw [trim, hstart, trimEnd, ← List.reverse_suffix, List.reverse_reverse]
  exact List.dropWhile_suffix _

namespace Rule

open Pattern Regex

/-- The head of a constructor is shown without the blanks behind it. -/
theorem reported_constructorsWithoutSuper {t : Text} {found : List Violation}
    (h : constructorsWithoutSuper t = .ok found) : Reported t found := by
  obtain ⟨constructors, hconstructors, hfound⟩ := bind_eq_ok_iff.1 h
  obtain ⟨fs, hfs, hconstructors⟩ := bind_eq_ok_iff.1 hconstructors
  obtain rfl := Except.ok.inj hconstructors
  refine reported_of_mapM ?_ (((Script.pairwise_functions hfs).filter _).filter _) hfound
  intro f hf
  have hmem : f ∈ fs := (List.mem_filter.1 (List.mem_filter.1 hf).1).1
  obtain ⟨start, brace, stop, rfl, hspans⟩ := Script.exists_spans_of_mem_functions hfs hmem
  obtain ⟨x, xs, hhead, hx⟩ := Script.exists_head_of_mem_functions hfs hmem
  refine hspans.liesIn.stands_head.of_prefix ?_
  rw [hhead]
  exact Text.trim_prefix hx

/-! ### Job metadata -/

/-- Two lists of spans that have no offset in common, merged. -/
theorem reported_mergeSort {content : Text} {vs ws : List Violation} (hvs : Reported content vs)
    (hws : Reported content ws) (hne : ∀ v ∈ vs, ∀ w ∈ ws, v.offset ≠ w.offset) :
    Reported content ((vs ++ ws).mergeSort fun v w => v.offset ≤ w.offset) := by
  have hperm := List.mergeSort_perm (vs ++ ws) fun v w => decide (v.offset ≤ w.offset)
  have hsorted : ((vs ++ ws).mergeSort fun v w => v.offset ≤ w.offset).Pairwise
      fun v w => v.offset ≤ w.offset := by
    have hmerge : ((vs ++ ws).mergeSort fun v w => v.offset ≤ w.offset).Pairwise
        fun v w => decide (v.offset ≤ w.offset) = true := by
      refine List.pairwise_mergeSort ?_ ?_ _
      · intro u v w huv hvw
        simp only [decide_eq_true_eq] at huv hvw ⊢
        exact Nat.le_trans huv hvw
      · intro v w
        simpa only [Bool.or_eq_true, decide_eq_true_eq] using Nat.le_total v.offset w.offset
    exact hmerge.imp of_decide_eq_true
  have hdistinct : (vs ++ ws).Pairwise fun v w => v.offset ≠ w.offset :=
    List.pairwise_append.2 ⟨hvs.pairwise.imp ne_of_lt, hws.pairwise.imp ne_of_lt, hne⟩
  have hdistinct' := (hperm.pairwise_iff fun h => h.symm).2 hdistinct
  refine ⟨?_, (hsorted.and hdistinct').imp fun h => lt_of_le_of_ne h.1 h.2⟩
  intro v hv
  rcases List.mem_append.1 (List.mem_mergeSort.1 hv) with hv | hv
  · exact hvs.isSpanOf v hv
  · exact hws.isSpanOf v hv

/-- What a module path is made of. -/
def pathClass : CharClass := ⟨false, [.word, .one '/', .one '.']⟩

/-- The tag in front of a module path. -/
def moduleTag : Text := "<parameter name=\"ExecuteScriptModule.Module\">".toList

/-- The module path of a match, if it is reported. -/
def modulePath? (m : Match) : Option (Cursor × Cursor) :=
  (m.group? 1).bind fun (start, stop) =>
    if Text.endsWith (start.upTo stop) ".ds".toList then some (start, stop) else none

/-- A module path stands right behind the tag, is made of the characters of
paths, and ends at the closing tag. -/
theorem of_modulePath?_eq_some {t : Text} {m : Match} (hm : m ∈ Catalog.jobModulePath.matchesIn t)
    {path : Cursor × Cursor} (h : modulePath? m = some path) :
    m.start.Leads moduleTag path.1 ∧ path.1 ≤ path.2 ∧
      (∀ x ∈ path.1.upTo path.2, pathClass.contains x = true) ∧
      "</parameter>".toList <+: path.2.after := by
  obtain ⟨a, b, hgroup, htag, hpath, hclosing⟩ := exists_group?_between rfl rfl hm
  obtain ⟨s, hs, hclass⟩ := matches_many.1 hpath
  obtain ⟨⟨_, _⟩, hgroup', h⟩ := Option.bind_eq_some_iff.1 h
  obtain ⟨-, h⟩ := Option.ite_none_right_eq_some.1 h
  obtain ⟨rfl, rfl⟩ := Prod.mk.inj (Option.some.inj (hgroup'.symm.trans hgroup))
  obtain rfl := Option.some.inj h
  refine ⟨matches_literal.1 htag, hs.le, ?_, ?_⟩
  · rw [hs.upTo_eq]
    exact hclass
  · exact begins_literal _ _ _ hclosing

/-- A module path lies in the text of its match. -/
theorem text_of_modulePath? {t : Text} {m : Match} (hm : m ∈ Catalog.jobModulePath.matchesIn t)
    {path : Cursor × Cursor} (h : modulePath? m = some path) : path.1.text = t :=
  (of_modulePath?_eq_some hm h).1.text_eq.trans (mem_outcomes_of_mem_matchesIn hm).1

theorem reported_oldModules {t : Text} {found : List Violation} (h : oldModules t = .ok found) :
    Reported t found := by
  refine reported_of_spans ?_ ?_ h
  · intro path hpath
    obtain ⟨m, hm, hpath⟩ := List.mem_filterMap.1 hpath
    exact ⟨text_of_modulePath? hm hpath, (of_modulePath?_eq_some hm hpath).2.1⟩
  · -- all paths are equally far from the beginnings of their matches
    have hmatches := (pairwise_matchesIn Catalog.jobModulePath t).imp_of_mem
      (S := fun m n => ∀ path, modulePath? m = some path → ∀ path', modulePath? n = some path' →
        path.1 < path'.1) ?_
    · exact List.Pairwise.filterMap modulePath? (fun _ _ h => h) hmatches
    · intro m n hm hn hlt path hpath path' hpath'
      have htext := text_of_modulePath? hm hpath
      have htext' := text_of_modulePath? hn hpath'
      have hoffset := (of_modulePath?_eq_some hm hpath).1.offset_eq
      have hoffset' := (of_modulePath?_eq_some hn hpath').1.offset_eq
      have hstart := (lt_iff_offset_lt (text_eq_of_le hlt.le).symm).1 hlt
      refine (lt_iff_offset_lt (htext.trans htext'.symm)).2 ?_
      omega

/-- A site is not reported where a module path is. -/
theorem not_site_prefix {path rest : Text} (hpath : ∀ x ∈ path, pathClass.contains x = true) :
    ¬ "site-id".toList <+: path ++ '<' :: rest := by
  -- the hyphen is in no path, and the bracket behind the path is not in the name
  have hhyphen : '-' ∉ path := by
    intro hmem
    exact absurd (hpath '-' hmem) (by decide)
  rintro ⟨tail, htail⟩
  rcases List.append_eq_append_iff.1 htail with ⟨more, hmore, -⟩ | ⟨more, hmore, hrest⟩
  · exact hhyphen (hmore ▸ List.mem_append_left more (by decide))
  · cases more with
    | nil => exact hhyphen (by rw [← List.append_nil path, ← hmore]; decide)
    | cons x xs =>
      obtain rfl : '<' = x := (List.cons.inj hrest).1
      have hbracket : '<' ∈ "site-id".toList := by
        rw [hmore]
        exact List.mem_append_right path List.mem_cons_self
      exact absurd hbracket (by decide)

theorem begins_jobSiteId : Catalog.jobSiteId.Begins ("site-id".toList <+: ·) :=
  (begins_literal _).seq _ |>.seq _ |>.seq _ |>.seq _ |>.seq _ |>.seq _

/-- No offset is both that of a site and that of a module path. -/
theorem offset_ne_of_mem_foreignSites {site : String} {t : Text} {sites modules : List Violation}
    (hsites : foreignSites site t = .ok sites) (hmodules : oldModules t = .ok modules) :
    ∀ v ∈ sites, ∀ w ∈ modules, v.offset ≠ w.offset := by
  intro v hv w hw heq
  obtain ⟨m, hm, hnew⟩ := (mem_iff_of_mapM_eq_ok hsites).1 hv
  have hmem : m ∈ Catalog.jobSiteId.matchesIn t := (List.mem_filter.1 hm).1
  obtain ⟨path, hpath, hnew'⟩ := (mem_iff_of_mapM_eq_ok hmodules).1 hw
  obtain ⟨n, hn, hpath⟩ := List.mem_filterMap.1 hpath
  rw [(Violation.new_eq_ok_iff.1 hnew).offset_eq,
    (Violation.new_eq_ok_iff.1 hnew').offset_eq] at heq
  obtain ⟨-, hle, hclass, rest, hrest⟩ := of_modulePath?_eq_some hn hpath
  have htext := (mem_outcomes_of_mem_matchesIn hmem).1.trans (text_of_modulePath? hn hpath).symm
  -- one place would be the beginning of the site and of the path
  have hsite := begins_jobSiteId.of_mem_matchesIn hmem
  rw [eq_of_offset_eq htext heq, (leads_upTo hle).ahead, ← hrest] at hsite
  exact not_site_prefix hclass hsite

theorem reported_jobViolations {site : String} {t : Text} {found : List Violation}
    (h : jobViolations site t = .ok found) : Reported t found := by
  obtain ⟨sites, hsites, h⟩ := bind_eq_ok_iff.1 h
  obtain ⟨modules, hmodules, h⟩ := bind_eq_ok_iff.1 h
  obtain rfl := Except.ok.inj h
  exact reported_mergeSort (reported_violationsWhere hsites) (reported_oldModules hmodules)
    (offset_ne_of_mem_foreignSites hsites hmodules)

end Rule

/-! ### Templates -/

namespace Markup

/-- Segments of a template that are not empty, reported in their order. -/
theorem reported_of_segments {text : Text} {spans : List (Cursor × Cursor)}
    {piece : Cursor × Cursor → Segment} (hpiece : ∀ s, (piece s).start = s.1 ∧ (piece s).stop = s.2)
    (hsub : (spans.map piece).Sublist (lex scriptTags text).segments)
    (hne : ∀ s ∈ spans, s.1.upTo s.2 ≠ []) {found : List Violation}
    (hfound : spans.mapM violationAt = .ok found) : Reported text found := by
  have hreading := reading_lex scriptTags text
  have hahead : ∀ s ∈ spans, Text.start text ≤ s.1 ∧ s.1 ≤ s.2 := by
    intro s hs
    obtain ⟨hstart, hstop⟩ := hpiece s
    have h := hreading.ahead (hsub.subset (List.mem_map_of_mem hs))
    rwa [hstart, hstop] at h
  have hbehind : spans.Pairwise fun s s' => s.2 ≤ s'.1 := by
    have h := hreading.pairwise.sublist hsub
    rw [List.pairwise_map] at h
    refine h.imp ?_
    intro s s' hle
    rwa [(hpiece s).2, (hpiece s').1] at hle
  refine reported_of_spans ?_ ?_ hfound
  · intro s hs
    exact ⟨text_eq_of_le (hahead s hs).1, (hahead s hs).2⟩
  · refine hbehind.imp_of_mem ?_
    intro s s' hs _ hle
    exact ((leads_upTo (hahead s hs).2).lt_iff.2 (hne s hs)).trans_le hle

theorem sublist_literalRuns (segments : List Segment) :
    ((literalRuns segments).map fun s => Segment.text s.1 s.2).Sublist segments := by
  induction segments with
  | nil => exact List.Sublist.refl []
  | cons s segments ih =>
    cases s with
    | ignored | tag => exact ih.cons _
    | text start stop =>
      rw [literalRuns, List.filterMap_cons]
      split
      · exact ih.cons _
      · next span hspan =>
        obtain ⟨-, hspan⟩ := Option.ite_none_right_eq_some.1 hspan
        obtain rfl := Option.some.inj hspan
        exact ih.cons_cons _

/-- The tags that are found stand in the order of the segments. -/
theorem sublist_of_styledTags {segments : List Segment} {found : List (Cursor × Cursor)}
    (h : styledTags segments = .ok found) :
    (found.map fun s => Segment.tag s.1 s.2).Sublist segments := by
  induction segments generalizing found with
  | nil =>
    obtain rfl := Except.ok.inj h
    exact List.Sublist.refl []
  | cons s segments ih =>
    cases s with
    | ignored | text => exact (ih h).cons _
    | tag start stop =>
      rw [styledTags_tag] at h
      split at h
      · cases h
      · cases h
      · next styled rest _ hrest =>
        obtain rfl := Except.ok.inj h
        cases styled with
        | false => exact (ih hrest).cons _
        | true => exact (ih hrest).cons_cons _

theorem reported_hardcodedStrings {t : Text} {found : List Violation}
    (h : hardcodedStrings t = .ok found) : Reported t found := by
  rw [hardcodedStrings_eq] at h
  split at h
  · cases h
  · exact reported_of_segments (fun _ => ⟨rfl, rfl⟩) (sublist_literalRuns _)
      upTo_ne_nil_of_mem_literalRuns h

theorem reported_inlineStyleTags {t : Text} {found : List Violation}
    (h : inlineStyleTags t = .ok found) : Reported t found := by
  rw [inlineStyleTags_eq] at h
  split at h
  · cases h
  · cases h
  · next tags htags _ =>
    exact reported_of_segments (fun _ => ⟨rfl, rfl⟩) (sublist_of_styledTags htags)
      (upTo_ne_nil_of_mem_styledTags htags) h

theorem reported_outputTags {t : Text} {found : List Violation} (h : outputTags t = .ok found) :
    Reported t found := by
  unfold outputTags at h
  split at h
  · cases h
  · next tags htags =>
    have hread := outputReading_of_eq htags
    have hsorted : tags.Pairwise fun s s' => s.1 < s'.1 :=
      hread.pairwise.imp_of_mem fun hs _ hle => (hread.ahead _ hs).2.1.trans_le hle
    refine reported_of_spans ?_ hsorted h
    intro s hs
    obtain ⟨hle, hlt, -⟩ := hread.ahead s hs
    exact ⟨text_eq_of_le hle, hlt.le⟩

end Markup

namespace Rule

theorem reported_unencodedOutput {t : Text} {found : List Violation}
    (h : unencodedOutput t = .ok found) : Reported t found := by
  obtain ⟨tags, htags, h⟩ := bind_eq_ok_iff.1 h
  obtain rfl := Except.ok.inj h
  exact (Markup.reported_outputTags htags).sublist List.filter_sublist

/-! ### Rules on files -/

/-- The rules that report parts of the file. -/
def spanCodes : List String :=
  ["CL001", "CL002", "CL003", "CL005", "CL007", "CL008", "CL009", "CL010", "CL011", "CL012",
   "CL013", "CL015", "CL018", "CL019"]

open Pattern Regex in
/-- **Reported spans are real spans.** Where the check of a file succeeds, what
these rules find has a text, which stands in the content at its offset; and but
for the iterators, which are looked for class by class, all of it is listed in
the order in which it stands. -/
theorem BuiltIn.isSpanOf_of_check {r : Rule} (h : r.BuiltIn) (hcode : r.code ∈ spanCodes)
    {v : FileView} {notices : List Notice} {found : List Violation}
    (hok : (r.check v notices).1 = .ok found) :
    (∀ w ∈ found, w.IsSpanOf v.content) ∧
      (r.code ≠ "CL005" → found.Pairwise fun w w' => w.offset < w'.offset) := by
  have hreported : Reported v.content found → (∀ w ∈ found, w.IsSpanOf v.content) ∧
      (r.code ≠ "CL005" → found.Pairwise fun w w' => w.offset < w'.offset) :=
    fun h => ⟨h.isSpanOf, fun _ => h.pairwise⟩
  induction h with
  | importPaths => exact hreported (reported_violationsWhere hok)
  | noTodo => exact hreported (reported_violations hok)
  | noSessionCustom => exact hreported (reported_sessionCustomUses hok)
  | closeIterators classes =>
    exact ⟨isSpanOf_of_unclosedIterators hok, fun hne => absurd rfl hne⟩
  | localServiceRegistry => exact hreported (reported_violations hok)
  | noHardcodedUrls => exact hreported (reported_violationsWhere hok)
  | noPxSizes maxPx => exact hreported (reported_violationsWhere hok)
  | noImportant => exact hreported (reported_violations hok)
  | noHardcodedStrings => exact hreported (Markup.reported_hardcodedStrings hok)
  | noUnencodedOutput => exact hreported (reported_unencodedOutput hok)
  | noInlineStyles => exact hreported (Markup.reported_inlineStyleTags hok)
  | modelCallsSuper => exact hreported (reported_constructorsWithoutSuper hok)
  | noControllerCalls => exact hreported (reported_violations hok)
  | jobMetadata site => exact hreported (reported_jobViolations hok)
  | withSeverity h s ih => exact ih hcode hok hreported
  | closeReadersWriters | noOldScripts | modelUnitTests | controllerJsonTests
  | noReplacedEndpoints => exact absurd hcode (by decide)

/-- A model with two constructors, in a project of its own. -/
def twoConstructors : FileView where
  file := .ofText ⟨"/Pets.js"⟩ []
  content := "function Cat() \x7b\x7d\nfunction Dog() \x7b\x7d".toList
  corpus := ⟨⟨.directory [], ⟨"/"⟩⟩, ⟨"/"⟩, false, [], ⟨[]⟩⟩

/-- Both heads are reported, without the blanks behind them. -/
theorem isSpanOf_of_check_twoConstructors :
    ∃ cat dog : Violation, cat.text = "function Cat()".toList ∧ dog.text = "function Dog()".toList ∧
      (modelCallsSuper.check twoConstructors []).1 = .ok [cat, dog] ∧
      cat.IsSpanOf twoConstructors.content ∧ dog.IsSpanOf twoConstructors.content ∧
      cat.offset < dog.offset := by
  have hok : (modelCallsSuper.check twoConstructors []).1 =
      .ok [⟨"function Cat()".toList, 0, none, by decide⟩,
        ⟨"function Dog()".toList, 18, none, by decide⟩] := by
    show constructorsWithoutSuper twoConstructors.content = _
    decide +kernel
  obtain ⟨hspans, hsorted⟩ := BuiltIn.modelCallsSuper.isSpanOf_of_check (by decide) hok
  obtain ⟨hcat, hdog⟩ := List.forall_mem_cons.1 hspans
  have hlt := (List.pairwise_cons.1 (hsorted (by decide))).1 _ (List.mem_singleton_self _)
  exact ⟨_, _, rfl, rfl, hok, hcat, hdog _ (List.mem_singleton_self _), hlt⟩

end Rule

end CartridgeAudit
