/-
CartridgeAudit/Proofs/Document/Outline.lean

The parts of a document tile its text.

Nothing is assumed of the text: it need not have been assembled from chapters, its
header may stand anywhere, and its parts may be empty.  Each part is cut where a search
has stopped.  What is found lies ahead of where the search has begun
(`Text.append_of_find?`), and the next search begins there; so the parts follow
each other and leave nothing out:

* the header is the longer of the two wherever that occurs, and the page ends at its
  first occurrence (`splitAtHeader_eq_some`);
* behind the header, the table holds the heading of its first entry, and the main
  part begins with it (`outlineOf_eq_ok`);
* a section is cut out of the main part (`isInfix_of_sectionText`).
-/
import CartridgeAudit.Proofs.Document.Contents
import CartridgeAudit.Proofs.Text.Searching

namespace CartridgeAudit

/-! ### What a search cuts -/

/-- What stands ahead of a later place stood ahead before. -/
theorem Cursor.after_suffix_of_le {c d : Cursor} (h : c ≤ d) : d.after <:+ c.after := by
  obtain ⟨s, hs⟩ := h
  exact ⟨s, hs.ahead.symm⟩

namespace Text

variable {needle t : Text} {c : Cursor}

/-- An occurrence cuts a text in three. -/
theorem append_of_find? (h : find? needle t = some c) :
    t = c.before.reverse ++ (needle ++ c.after.drop needle.length) := by
  obtain ⟨hle, hprefix⟩ := prefix_of_findFrom h
  have htext : c.before.reverse ++ c.after = t := Cursor.text_eq_of_le hle
  rw [List.prefix_iff_eq_append.1 hprefix, htext]

/-- Before the first occurrence there is none. -/
theorem not_isInfix_before_of_find? (hneedle : needle ≠ []) (h : find? needle t = some c) :
    ¬ needle <:+: c.before.reverse := by
  rintro ⟨a, b, hab⟩
  obtain ⟨hle, -, hfirst⟩ := findFrom_eq_some_iff.1 h
  have htext : c.before.reverse ++ c.after = t := Cursor.text_eq_of_le hle
  -- an occurrence there would begin, and the search would stop, before `c`
  let m : Cursor := ⟨a.reverse, needle ++ (b ++ c.after)⟩
  have hm : m.text = t := by simp [m, Cursor.text, ← htext, ← hab]
  have hc : c ≤ m := hfirst m (hm ▸ m.start_le) (List.prefix_append _ _)
  have hlength := (Cursor.after_suffix_of_le hc).length_le
  have hpos := List.length_pos_iff.2 hneedle
  simp only [m, List.length_append] at hlength
  omega

theorem find?_eq_none_iff : find? needle t = none ↔ ¬ needle <:+: t := by
  rw [← findFrom_isSome_iff needle [] t, Bool.not_eq_true, Option.isSome_eq_false_iff,
    Option.isNone_iff_eq_none]
  rfl

end Text

namespace Document

open Pattern Cursor

/-! ### The first page and the header -/

/-- The header that counts in a text: the longer one wherever it occurs. -/
def headerOf (content : Text) : Text :=
  if "tableofcontents".toList <:+: content then "tableofcontents".toList else "contents".toList

theorem splitAtHeader_eq_none_iff {headers : List Text} {content : Text} :
    splitAtHeader headers content = none ↔ ∀ header ∈ headers, ¬ header <:+: content := by
  induction headers with
  | nil => simp [splitAtHeader]
  | cons header headers ih =>
    rw [splitAtHeader, List.forall_mem_cons, ← Text.find?_eq_none_iff, ← ih]
    cases Text.find? header content <;> simp

/-- The first of the headers that occurs cuts the text where it first occurs. -/
theorem splitAtHeader_eq_some {headers : List Text} {content page header rest : Text}
    (hne : ∀ header ∈ headers, header ≠ [])
    (h : splitAtHeader headers content = some (page, header, rest)) :
    headers.find? (· <:+: content) = some header ∧ content = page ++ (header ++ rest) ∧
      ¬ header <:+: page := by
  induction headers with
  | nil => cases h
  | cons first headers ih =>
    obtain ⟨hfirst, hne⟩ := List.forall_mem_cons.1 hne
    rw [splitAtHeader] at h
    cases hfind : Text.find? first content with
    | some c =>
      rw [hfind] at h
      obtain ⟨rfl, rfl, rfl⟩ : c.before.reverse = page ∧ first = header ∧
          c.after.drop first.length = rest := by simpa using h
      have hoccurs : first <:+: content := by
        by_contra hnot
        simp [Text.find?_eq_none_iff.2 hnot] at hfind
      exact ⟨List.find?_cons_of_pos (by simpa using hoccurs), Text.append_of_find? hfind,
        Text.not_isInfix_before_of_find? hfirst hfind⟩
    | none =>
      rw [hfind] at h
      have hnot := Text.find?_eq_none_iff.1 hfind
      rw [List.find?_cons_of_neg (by simpa using hnot)]
      exact ih hne h

theorem contents_isInfix_iff {content : Text} :
    "contents".toList <:+: content ↔ ∃ header ∈ contentsHeaders, header <:+: content := by
  have hpart : "contents".toList <:+: "tableofcontents".toList := by decide
  simp only [contentsHeaders, List.mem_cons, List.not_mem_nil, or_false, exists_eq_or_imp,
    exists_eq_left]
  exact ⟨.inr, fun h => h.elim hpart.trans id⟩

theorem firstPage_eq_ok_iff {content page : Text} :
    firstPage content = .ok page ↔
      ∃ header rest, splitAtHeader contentsHeaders content = some (page, header, rest) := by
  rw [firstPage]
  cases splitAtHeader contentsHeaders content with
  | none => simp
  | some parts => simp [Prod.ext_iff]

/-- There is a first page if there is a header. -/
theorem exists_firstPage_iff {content : Text} :
    (∃ page, firstPage content = .ok page) ↔ "contents".toList <:+: content := by
  have hnone : splitAtHeader contentsHeaders content = none ↔ _ := splitAtHeader_eq_none_iff
  rw [contents_isInfix_iff, firstPage]
  cases hsplit : splitAtHeader contentsHeaders content with
  | none => simpa using hnone.1 hsplit
  | some parts =>
    rw [hsplit] at hnone
    simpa using hnone

/-- Of two candidates the second counts only if the first does not. -/
theorem find?_pair {α : Type} {p : α → Prop} [DecidablePred p] {x y z : α}
    (h : [x, y].find? (p ·) = some z) : z = if p x then x else y := by
  by_cases hx : p x
  · rw [List.find?_cons_of_pos (by simpa using hx)] at h
    rw [if_pos hx, Option.some.inj h]
  · rw [List.find?_cons_of_neg (by simpa using hx)] at h
    rw [if_neg hx, List.mem_singleton.1 (List.mem_of_find?_eq_some h)]

/-- The header is taken for the longer one wherever that occurs. -/
theorem eq_headerOf {content page header rest : Text}
    (h : splitAtHeader contentsHeaders content = some (page, header, rest)) :
    header = headerOf content ∧ content = page ++ (header ++ rest) ∧ ¬ header <:+: page := by
  obtain ⟨hfirst, hsplit⟩ := splitAtHeader_eq_some (by decide) h
  exact ⟨find?_pair hfirst, hsplit⟩

/-! ### The table of contents and the main part -/

/-- What stands behind a header is the table and the main part, and the heading of the
first entry stands in the one and at the beginning of the other. -/
theorem outlineOf_eq_ok {rest : Text} {parts : Outline} (h : outlineOf rest = .ok parts) :
    rest = parts.contents ++ parts.main ∧
      ∃ m a b, Catalog.contentsEntry.find? rest = some m ∧ m.group? 1 = some (a, b) ∧
        a.upTo b <+: parts.main ∧ a.upTo b <:+: parts.contents := by
  rw [outlineOf] at h
  split at h
  · cases h
  · next a b hgroup =>
    split at h
    · cases h
    · next body hbody =>
      cases h
      obtain ⟨m, hm, hab⟩ := Option.bind_eq_some_iff.1 hgroup
      have hmem : m ∈ Catalog.contentsEntry.matchesIn rest := by
        rw [Regex.find?_eq_head?_matchesIn] at hm
        exact List.mem_of_head? hm
      obtain ⟨htext, -⟩ := Regex.mem_outcomes_of_mem_matchesIn hmem
      obtain ⟨b', hab', heading, d, -, hleads, -⟩ :=
        capturesFirst_contentsEntry.of_mem_matchesIn hmem
      obtain ⟨rfl, rfl⟩ : m.start = a ∧ b' = b := by
        simpa using hab'.symm.trans hab
      obtain ⟨hle, hprefix⟩ := Text.prefix_of_findFrom hbody
      obtain ⟨between, hbetween⟩ := hle
      have hall := hleads.trans hbetween
      refine ⟨?_, m, m.start, b', hm, hab, hprefix, ?_⟩
      · rw [← htext]
        exact hall.text_eq.symm
      · -- the entry and what stands between it and the main part end the table
        rw [hleads.upTo_eq, hall.behind]
        refine ⟨m.start.before.reverse, between, ?_⟩
        simp

theorem outline_eq_ok {content : Text} {parts : Outline} (h : outline content = .ok parts) :
    ∃ page rest, splitAtHeader contentsHeaders content = some (page, headerOf content, rest) ∧
      outlineOf rest = .ok parts := by
  rw [outline] at h
  split at h
  · next page header rest hsplit =>
    obtain ⟨rfl, -⟩ := eq_headerOf hsplit
    exact ⟨page, rest, hsplit, h⟩
  · cases h

/-! ### Sections -/

/-- A section is a part of the main part. -/
theorem isInfix_of_sectionText {l : Listed} {main body : Text}
    (h : sectionText l main = some body) : body <:+: main := by
  rw [sectionText] at h
  -- the search begins at a place in the main part
  have hstart : Text.start main ≤
      (l.previous.bind fun h => Text.find? h main).getD (Text.start main) := by
    cases hfound : l.previous.bind fun h => Text.find? h main with
    | none => exact le_rfl
    | some c =>
      obtain ⟨previous, -, hc⟩ := Option.bind_eq_some_iff.1 hfound
      exact (Text.prefix_of_findFrom hc).1
  generalize (l.previous.bind fun h => Text.find? h main).getD (Text.start main) = start at h hstart
  split at h
  · cases h
  · next c hc =>
    have hle := hstart.trans (Text.prefix_of_findFrom hc).1
    have hrest : c.after.drop l.current.length <:+ main :=
      (List.drop_suffix _ _).trans (Cursor.after_suffix_of_le hle)
    simp only at h
    split at h
    · next e he =>
      obtain ⟨next, -, he⟩ := Option.bind_eq_some_iff.1 he
      obtain rfl := Option.some.inj h
      have htext := Cursor.text_eq_of_le (Text.prefix_of_findFrom he).1
      exact (List.IsPrefix.isInfix ⟨e.after, htext⟩).trans hrest.isInfix
    · obtain rfl := Option.some.inj h
      exact hrest.isInfix

theorem isInfix_of_sectionNamed {content name body : Text}
    (h : sectionNamed content name = .ok body) :
    ∃ main, mainContent content = .ok main ∧ body <:+: main := by
  rw [sectionNamed] at h
  cases hparts : outline content with
  | error e =>
    rw [hparts] at h
    cases h
  | ok parts =>
    rw [hparts] at h
    refine ⟨parts.main, by rw [mainContent, hparts]; rfl, ?_⟩
    change sectionAmong _ _ _ = _ at h
    rw [sectionAmong] at h
    split at h
    · next found hfound =>
      obtain ⟨l, -, hl⟩ := Option.bind_eq_some_iff.1 hfound
      obtain rfl := Except.ok.inj h
      exact isInfix_of_sectionText hl
    · cases h

/-! ### The parts tile the text -/

/-- The parts of a document tile its text, and the heading of the first entry stands
in the table and at the beginning of the main part. -/
structure Tiles (content page contents main : Text) : Prop where
  content_eq : content = page ++ (headerOf content ++ (contents ++ main))
  header_first : ¬ headerOf content <:+: page
  heading : ∃ m a b, Catalog.contentsEntry.find? (contents ++ main) = some m ∧
    m.group? 1 = some (a, b) ∧ a.upTo b <+: main ∧ a.upTo b <:+: contents

/-- **The parts of a document**, whatever its text. -/
theorem parts_tile (content : Text) :
    ((∃ page, firstPage content = .ok page) ↔ "contents".toList <:+: content) ∧
    ((∃ contents, tableOfContents content = .ok contents) ↔
      ∃ main, mainContent content = .ok main) ∧
    (∀ contents main, tableOfContents content = .ok contents → mainContent content = .ok main →
      ∃ page, firstPage content = .ok page ∧ Tiles content page contents main) ∧
    ∀ name body, sectionNamed content name = .ok body →
      ∃ main, mainContent content = .ok main ∧ body <:+: main := by
  refine ⟨exists_firstPage_iff, ?_, ?_, fun name body => isInfix_of_sectionNamed⟩
  · rw [tableOfContents, mainContent]
    cases outline content <;> simp [Except.map]
  · intro contents main hcontents hmain
    rw [tableOfContents] at hcontents
    rw [mainContent] at hmain
    cases hparts : outline content with
    | error e => simp [hparts, Except.map] at hcontents
    | ok parts =>
      obtain rfl : parts.contents = contents := by simpa [hparts, Except.map] using hcontents
      obtain rfl : parts.main = main := by simpa [hparts, Except.map] using hmain
      obtain ⟨page, rest, hsplit, hrest⟩ := outline_eq_ok hparts
      obtain ⟨-, hcontent, hfirst⟩ := eq_headerOf hsplit
      obtain ⟨rfl, hheading⟩ := outlineOf_eq_ok hrest
      exact ⟨page, firstPage_eq_ok_iff.2 ⟨_, _, hsplit⟩, hcontent, hfirst, hheading⟩

end Document

end CartridgeAudit
