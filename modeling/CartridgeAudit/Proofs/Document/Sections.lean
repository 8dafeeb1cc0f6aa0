/-
CartridgeAudit/Proofs/Document/Sections.lean

Finding the sections of a guide again.

A guide is assembled from a title, the header of the table of contents, the
table and the main part, in which each chapter is its heading and its body.  No
separators stand between these parts; they are found by four searches, one on the
result of the other:

* the header is found where it first occurs (`splitAtHeader_assemble`);
* the main part begins where the first heading listed occurs again.  It does not
  occur within the table, because a part of the table without a digit lies in
  one of the headings (`exists_infix_heading`), and it does not reach from the
  table into the main part, because the table ends with a digit
  (`outlineOf_assemble`);
* a heading is listed with its neighbours (`listed_append`);
* it is found in the main part from the heading before on, and its body ends at
  the next heading (`sectionText_assemble`).

The conditions are those without which the text could be read in another way
(`Unambiguous`).
-/
import CartridgeAudit.Proofs.Document.Contents
import CartridgeAudit.Proofs.Text.Letters
import CartridgeAudit.Proofs.Text.Parts

namespace CartridgeAudit.Document

open Pattern Cursor

/-! ### Assembling -/

/-- The main part of a guide. -/
def mainOf (cs : List Chapter) : Text := cs.flatMap fun c => c.heading ++ c.body

@[simp] theorem mainOf_nil : mainOf [] = [] := rfl

@[simp] theorem mainOf_cons (c : Chapter) (cs : List Chapter) :
    mainOf (c :: cs) = c.heading ++ (c.body ++ mainOf cs) := List.append_assoc _ _ _

/-- The main part begins with the first heading. -/
theorem heading_prefix_mainOf (c : Chapter) (cs : List Chapter) :
    c.heading <+: mainOf (c :: cs) := by
  rw [mainOf_cons]
  exact List.prefix_append _ _

@[simp] theorem mainOf_append (cs ds : List Chapter) :
    mainOf (cs ++ ds) = mainOf cs ++ mainOf ds := List.flatMap_append

/-- The header of the table of contents. -/
def contentsHeader : Text := "tableofcontents".toList

/-- The text of a guide. -/
def assemble (title : Text) (cs : List Chapter) : Text :=
  title ++ (contentsHeader ++ (contentsOf cs ++ mainOf cs))

/-- A text begins at one place of another text only. -/
def OccursOnce (t u : Text) : Prop := ∃! p : Cursor, p.text = u ∧ t <+: p.after

/-- The parts of a guide can be told from each other. -/
structure Unambiguous (title : Text) (cs : List Chapter) : Prop where
  ne_nil : cs ≠ []
  /-- The header does not occur before its place. -/
  header_first : ∀ p : Cursor, p.text = assemble title cs → contentsHeader <+: p.after →
    Text.byteLength title ≤ p.offset
  /-- No heading is a part of another one. -/
  headings_apart : cs.Pairwise fun c d => ¬ c.heading <:+: d.heading ∧ ¬ d.heading <:+: c.heading
  /-- Each heading occurs once in the main part. -/
  heading_once : ∀ c ∈ cs, OccursOnce c.heading (mainOf cs)

instance (t u : Text) : Decidable (OccursOnce t u) :=
  decidable_of_iff
    (∃ p ∈ places [] u, t <+: p.after ∧ ∀ q ∈ places [] u, t <+: q.after → q = p) <| by
    simp only [mem_places_start_iff, OccursOnce, ExistsUnique, and_assoc, and_imp]

instance (title : Text) (cs : List Chapter) : Decidable (Unambiguous title cs) :=
  decidable_of_iff (cs ≠ [] ∧ (∀ p ∈ places [] (assemble title cs), contentsHeader <+: p.after →
      Text.byteLength title ≤ p.offset) ∧
      (cs.Pairwise fun c d => ¬ c.heading <:+: d.heading ∧ ¬ d.heading <:+: c.heading) ∧
      ∀ c ∈ cs, OccursOnce c.heading (mainOf cs)) <| by
    simp only [mem_places_start_iff]
    exact ⟨fun h => ⟨h.1, h.2.1, h.2.2.1, h.2.2.2⟩, fun h => ⟨h.1, h.2, h.3, h.4⟩⟩

/-! ### The header -/

theorem splitAtHeader_assemble {title : Text} {cs : List Chapter} (h : Unambiguous title cs) :
    splitAtHeader contentsHeaders (assemble title cs) =
      some (title, contentsHeader, contentsOf cs ++ mainOf cs) := by
  let place : Cursor := ⟨title.reverse, contentsHeader ++ (contentsOf cs ++ mainOf cs)⟩
  have htext : place.text = assemble title cs := by simp [place, Cursor.text, assemble]
  have hfound : Text.find? contentsHeader (assemble title cs) = some place := by
    refine Text.findFrom_eq_some_iff.2 ⟨?_, List.prefix_append _ _, ?_⟩
    · rw [← htext]
      exact place.start_le
    · intro m hm hprefix
      have hmtext : m.text = assemble title cs := text_eq_of_le hm
      refine (le_iff_offset_le (htext.trans hmtext.symm)).2 ?_
      have hfirst := h.header_first m hmtext hprefix
      simpa [place, Cursor.offset] using hfirst
  have hheaders : contentsHeaders = [contentsHeader, "contents".toList] := rfl
  rw [hheaders, splitAtHeader, hfound]
  simp [place]

/-! ### Parts without a digit -/

theorem IsHeading.ne_nil {t : Text} (h : IsHeading t) : t ≠ [] := by
  rintro rfl
  simpa using h.two_le

theorem IsHeading.not_mem {t : Text} {d : Char} (h : IsHeading t) (hd : Text.isDigit d = true) :
    d ∉ t := by
  intro hmem
  rw [h.isDigit d hmem] at hd
  cases hd

/-- In front of a number a heading is a part of nothing. -/
theorem IsHeading.infix_of_infix_append {t s u : Text} (h : IsHeading t)
    (hs : ∀ x ∈ s, x.isDigit = true) (hpart : t <:+: s ++ u) : t <:+: u := by
  induction s with
  | nil => exact hpart
  | cons x s ih =>
    obtain ⟨hx, hs⟩ := List.forall_mem_cons.1 hs
    have hout := h.not_mem (Text.isDigit_of_ascii hx)
    rcases Text.infix_of_infix_append_cons (a := []) hout hpart with hnil | hrest
    · exact absurd (List.infix_nil.1 hnil) h.ne_nil
    · exact ih hs hrest

/-- A part of the table without a digit lies in one of the headings. -/
theorem exists_infix_heading {t page : Text} {cs : List Chapter} (h : IsHeading t)
    (hpage : IsNumeral page) (hpart : t <:+: page ++ contentsOf cs) :
    ∃ c ∈ cs, t <:+: c.heading := by
  induction cs generalizing page with
  | nil => exact absurd (List.infix_nil.1 (h.infix_of_infix_append hpage.isDigit hpart)) h.ne_nil
  | cons c cs ih =>
    have hentry : contentsOf (c :: cs) =
        c.number ++ '.' :: (c.heading ++ (c.page ++ contentsOf cs)) := by
      simp [Chapter.entry]
    rw [hentry] at hpart
    have hpoint := h.infix_of_infix_append c.isNumeral_number.isDigit
      (h.infix_of_infix_append hpage.isDigit hpart)
    obtain ⟨d, ds, hpage', hd, -⟩ := c.isNumeral_page.exists_cons
    rcases List.infix_cons_iff.1 hpoint with hprefix | hrest
    · -- a heading does not begin with a point
      rcases List.prefix_cons_iff.1 hprefix with rfl | ⟨u, rfl, -⟩
      · exact absurd rfl h.ne_nil
      · exact absurd rfl h.head_ne
    · rw [hpage', List.cons_append] at hrest
      rcases Text.infix_of_infix_append_cons (h.not_mem hd) hrest with hin | hrest
      · exact ⟨c, List.mem_cons_self, hin⟩
      · obtain ⟨c', hc', hin⟩ := ih c.isNumeral_page (by
          rw [hpage', List.cons_append]
          exact List.infix_cons_iff.2 (.inr hrest))
        exact ⟨c', List.mem_cons_of_mem c hc', hin⟩

/-- A table ends with a digit, from any page of it on. -/
theorem exists_last_digit {page : Text} (cs : List Chapter) (hpage : IsNumeral page) :
    ∃ s d, page ++ contentsOf cs = s ++ [d] ∧ Text.isDigit d = true := by
  induction cs generalizing page with
  | nil =>
    refine ⟨page.dropLast, page.getLast hpage.ne_nil, ?_, ?_⟩
    · rw [contentsOf_nil, List.append_nil, List.dropLast_append_getLast]
    · exact Text.isDigit_of_ascii (hpage.isDigit _ (List.getLast_mem _))
  | cons c cs ih =>
    obtain ⟨s, d, hs, hd⟩ := ih c.isNumeral_page
    refine ⟨page ++ (c.number ++ '.' :: c.heading) ++ s, d, ?_, hd⟩
    rw [List.append_assoc _ s, ← hs]
    simp [Chapter.entry]

/-! ### The beginning of the main part -/

/-- Behind the entry of a chapter its heading occurs next at the beginning of
the main part. -/
theorem findFrom_heading {c : Chapter} {cs : List Chapter} {p q : Cursor}
    (hapart : ∀ d ∈ cs, ¬ c.heading <:+: d.heading) (h : p.Leads (c.page ++ contentsOf cs) q)
    (hq : c.heading <+: q.after) : Text.findFrom c.heading p.before p.after = some q := by
  refine Text.findFrom_eq_some_iff.2 ⟨h.le, hq, ?_⟩
  intro m hm hprefix
  rcases lt_or_le_of_le h.le hm with hlt | hle
  · -- an earlier occurrence ends before the last digit, so it is a part of the table
    exfalso
    obtain ⟨s, r, hsplit, -, hr⟩ := h.split_of_le hm hlt.le
    obtain ⟨u, d, hlast, hd⟩ := exists_last_digit cs c.isNumeral_page
    obtain ⟨w, rfl⟩ : [d] <:+ r := by
      refine List.suffix_of_suffix_length_le ⟨u, hlast.symm⟩ ⟨s, hsplit.symm⟩ ?_
      exact List.length_pos_iff.2 (hr.lt_iff.1 hlt)
    rw [hr.ahead, List.append_assoc] at hprefix
    have hw := Text.prefix_of_prefix_append_cons (c.isHeading.not_mem hd) hprefix
    have hpart : c.heading <:+: c.page ++ contentsOf cs := by
      rw [hsplit, ← List.append_assoc]
      exact (hw.isInfix.trans (List.suffix_append s w).isInfix).trans
        (List.prefix_append _ [d]).isInfix
    obtain ⟨c', hc', hin⟩ := exists_infix_heading c.isHeading c.isNumeral_page hpart
    exact hapart c' hc' hin
  · exact hle

/-- **The table ends where the first heading occurs again.** -/
theorem outlineOf_assemble {title : Text} {cs : List Chapter} (h : Unambiguous title cs)
    (hblank : ∀ c ∈ cs, ∀ x ∈ c.heading, Text.isBlank x = false) :
    outlineOf (contentsOf cs ++ mainOf cs) = .ok ⟨contentsOf cs, mainOf cs⟩ := by
  obtain ⟨c, cs, rfl⟩ := List.exists_cons_of_ne_nil h.ne_nil
  obtain ⟨hc, -⟩ := List.forall_mem_cons.1 hblank
  obtain ⟨hapart, -⟩ := List.pairwise_cons.1 h.headings_apart
  generalize hmain : mainOf (c :: cs) = main
  have hall : (Text.start (contentsOf (c :: cs) ++ main)).Leads (contentsOf (c :: cs))
      ⟨(contentsOf (c :: cs)).reverse, main⟩ := ⟨rfl, by simp [Text.start]⟩
  obtain ⟨e, hentry, hrest⟩ := Leads.exists_between (s := c.entry) hall
  obtain ⟨m, a, b, hfrom, hgroup, hheading, hpage⟩ := exists_matchesFrom_entry c hc hentry
  have hfirst : (Catalog.contentsEntry.find? (contentsOf (c :: cs) ++ main)).bind (·.group? 1) =
      some (a, b) := by
    rw [Regex.find?_eq_head?_matchesIn, Regex.matchesIn_eq_matchesFrom, hfrom]
    exact hgroup
  have hfound : Text.findFrom c.heading b.before b.after =
      some ⟨(contentsOf (c :: cs)).reverse, main⟩ := by
    refine findFrom_heading (fun d hd => (hapart d hd).1) (hpage.trans hrest) ?_
    rw [← hmain]
    exact heading_prefix_mainOf c cs
  rw [outlineOf, hfirst]
  simp only [hheading.upTo_eq, hfound, List.reverse_reverse]

/-! ### Headings with their neighbours -/

theorem listed_append {name h : Text} {pre post : List Text} {previous : Option Text}
    (hpre : ∀ g ∈ pre, ¬ name <:+: g) (hh : name <:+: h) :
    listed name previous (pre ++ h :: post) =
      some ⟨pre.getLast?.or previous, h, post.head?⟩ := by
  induction pre generalizing previous with
  | nil => simp [listed, Text.contains_iff.2 hh]
  | cons g pre ih =>
    obtain ⟨hg, hpre⟩ := List.forall_mem_cons.1 hpre
    have hno : Text.contains g name ≠ true := mt Text.contains_iff.1 hg
    rw [List.cons_append, listed, if_neg hno, ih hpre, List.getLast?_cons]
    cases pre.getLast? <;> rfl

/-! ### The body of a chapter -/

section

variable {pre post : List Chapter} {c : Chapter}

/-- Where a chapter begins in the main part. -/
def placeOf (pre : List Chapter) (c : Chapter) (post : List Chapter) : Cursor :=
  ⟨(mainOf pre).reverse, mainOf (c :: post)⟩

theorem text_placeOf (pre : List Chapter) (c : Chapter) (post : List Chapter) :
    (placeOf pre c post).text = mainOf (pre ++ c :: post) := by
  simp [placeOf, Cursor.text]

/-- A heading that occurs once is found wherever the search begins before it. -/
theorem findFrom_placeOf {s : Cursor}
    (honce : OccursOnce c.heading (mainOf (pre ++ c :: post)))
    (hs : s ≤ placeOf pre c post) :
    Text.findFrom c.heading s.before s.after = some (placeOf pre c post) := by
  have hbegins : c.heading <+: (placeOf pre c post).after := heading_prefix_mainOf c post
  refine Text.findFrom_eq_some_iff.2 ⟨hs, hbegins, ?_⟩
  intro m hm hprefix
  have hmtext : m.text = mainOf (pre ++ c :: post) :=
    (text_eq_of_le hm).trans ((text_eq_of_le hs).symm.trans (text_placeOf pre c post))
  exact (honce.unique ⟨text_placeOf pre c post, hbegins⟩ ⟨hmtext, hprefix⟩).le

theorem start_le_placeOf (pre : List Chapter) (c : Chapter) (post : List Chapter) :
    Text.start (mainOf (pre ++ c :: post)) ≤ placeOf pre c post := by
  rw [← text_placeOf]
  exact start_le _

/-- The search for a heading begins before it, at the heading before. -/
theorem previous_le_placeOf
    (honce : ∀ d ∈ pre ++ c :: post, OccursOnce d.heading (mainOf (pre ++ c :: post))) :
    (((pre.map Chapter.heading).getLast?.bind fun h =>
      Text.find? h (mainOf (pre ++ c :: post))).getD (Text.start (mainOf (pre ++ c :: post))))
        ≤ placeOf pre c post := by
  obtain rfl | ⟨pre, g, rfl⟩ := List.eq_nil_or_concat' pre
  · exact start_le_placeOf [] c post
  · rw [List.append_assoc, List.singleton_append] at honce ⊢
    have hfound : Text.find? g.heading (mainOf (pre ++ g :: c :: post)) =
        some (placeOf pre g (c :: post)) :=
      findFrom_placeOf (honce g (by simp)) (start_le_placeOf pre g (c :: post))
    rw [List.map_append, List.map_singleton, List.getLast?_concat, Option.bind_some, hfound]
    have hleads : (placeOf pre g (c :: post)).Leads (g.heading ++ g.body)
        (placeOf (pre ++ [g]) c post) := ⟨by simp [placeOf], by simp [placeOf]⟩
    exact hleads.le

/-- The body of a chapter ends where the next heading is found. -/
theorem find?_next {d : Chapter}
    (honce : OccursOnce d.heading (mainOf (pre ++ c :: d :: post))) :
    Text.find? d.heading (c.body ++ mainOf (d :: post)) =
      some ⟨c.body.reverse, mainOf (d :: post)⟩ := by
  have hbegins := heading_prefix_mainOf d post
  refine Text.findFrom_eq_some_iff.2 ⟨⟨c.body, rfl, by simp⟩, hbegins, ?_⟩
  rintro ⟨before, after⟩ hm hprefix
  have htext : before.reverse ++ after = c.body ++ mainOf (d :: post) := text_eq_of_le hm
  -- the place is one in the main part, if the text up to the body is put in front
  let shifted : Cursor := ⟨before ++ (mainOf pre ++ c.heading).reverse, after⟩
  have hshifted : shifted.text = mainOf (pre ++ c :: d :: post) := by
    simp [shifted, Cursor.text, htext]
  have hplace : (placeOf (pre ++ [c]) d post).text = mainOf (pre ++ c :: d :: post) := by
    simp [text_placeOf]
  have hsame := honce.unique ⟨hplace, hbegins⟩ ⟨hshifted, hprefix⟩
  obtain rfl : mainOf (d :: post) = after := congrArg Cursor.after hsame
  rw [← List.reverse_eq_iff.1 (List.append_cancel_right htext)]

/-- **The body of a chapter** is found between its heading and the next one. -/
theorem sectionText_assemble
    (honce : ∀ d ∈ pre ++ c :: post, OccursOnce d.heading (mainOf (pre ++ c :: post))) :
    sectionText ⟨(pre.map Chapter.heading).getLast?, c.heading, (post.map Chapter.heading).head?⟩
      (mainOf (pre ++ c :: post)) = some c.body := by
  have hfound := findFrom_placeOf (honce c (by simp)) (previous_le_placeOf honce)
  rw [sectionText]
  simp only [hfound]
  have hbody : (placeOf pre c post).after.drop c.heading.length = c.body ++ mainOf post := by
    rw [placeOf, mainOf_cons, List.drop_left]
  rw [hbody]
  cases post with
  | nil => simp
  | cons d post =>
    have hnext := find?_next (honce d (by simp))
    rw [List.map_cons, List.head?_cons, Option.bind_some, hnext]
    simp

end

/-- **Among the headings listed** a heading has the body of its chapter. -/
theorem sectionAmong_assemble {title : Text} {cs : List Chapter} {c : Chapter}
    (h : Unambiguous title cs) (hc : c ∈ cs) (hlower : Text.lower c.heading = c.heading) :
    sectionAmong ⟨contentsOf cs, mainOf cs⟩ (cs.map Chapter.heading) c.heading = .ok c.body := by
  obtain ⟨pre, post, rfl⟩ := List.append_of_mem hc
  -- no heading before holds this one
  have hpre : ∀ g ∈ pre.map Chapter.heading, ¬ c.heading <:+: g := by
    intro g hg
    obtain ⟨b, hb, rfl⟩ := List.mem_map.1 hg
    exact ((List.pairwise_append.1 h.headings_apart).2.2 b hb c List.mem_cons_self).2
  have hlisted : listed c.heading none ((pre ++ c :: post).map Chapter.heading) =
      some ⟨(pre.map Chapter.heading).getLast?, c.heading, (post.map Chapter.heading).head?⟩ := by
    rw [List.map_append, List.map_cons, listed_append hpre (List.infix_refl _), Option.or_none]
  rw [sectionAmong, hlower, hlisted, Option.bind_some, sectionText_assemble h.heading_once]

/-! ### The parts of a document -/

/-- What is in normal form is in lower case and not blank. -/
theorem of_mem_normalize {raw : Text} {x : Char} (h : x ∈ normalize raw) :
    Text.IsSettled x ∧ Text.isBlank x = false := by
  obtain ⟨hlower, hblank⟩ := List.mem_filter.1 h
  exact ⟨Text.isSettled_of_mem_lowerFrom hlower, by simpa using hblank⟩

theorem mem_assemble_of_mem_heading {title : Text} {cs : List Chapter} {c : Chapter} {x : Char}
    (hc : c ∈ cs) (hx : x ∈ c.heading) : x ∈ assemble title cs := by
  have hmain : x ∈ mainOf cs := List.mem_flatMap.2 ⟨c, hc, List.mem_append_left _ hx⟩
  simp [assemble, hmain]

/-- **Assembling is undone**: the first page of a document that is assembled is
its title, the table of contents and the main part are found, and under each
heading the body of its chapter. -/
theorem parts_of_document {d : Document} {path : Path} {raw title : Text}
    {cartridges : CartridgeSet} {cs : List Chapter}
    (hd : Document.ofText path raw cartridges = d) (hcontent : d.content = assemble title cs)
    (h : Unambiguous title cs) :
    firstPage d.content = .ok title ∧
      outline d.content = .ok ⟨contentsOf cs, mainOf cs⟩ ∧
      ∀ c ∈ cs, sectionNamed d.content c.heading = .ok c.body := by
  have hnormal : ∀ c ∈ cs, ∀ x ∈ c.heading, Text.IsSettled x ∧ Text.isBlank x = false := by
    intro c hc x hx
    have hmem : x ∈ d.content := hcontent ▸ mem_assemble_of_mem_heading hc hx
    rw [← hd] at hmem
    exact of_mem_normalize hmem
  have hblank : ∀ c ∈ cs, ∀ x ∈ c.heading, Text.isBlank x = false :=
    fun c hc x hx => (hnormal c hc x hx).2
  have hheader := splitAtHeader_assemble h
  have houtline : outline d.content = .ok ⟨contentsOf cs, mainOf cs⟩ := by
    rw [hcontent, outline, hheader]
    exact outlineOf_assemble h hblank
  refine ⟨?_, houtline, ?_⟩
  · rw [hcontent, firstPage, hheader]
  · intro c hc
    have hlower : Text.lower c.heading = c.heading :=
      Text.lowerFrom_eq_self fun x hx => (hnormal c hc x hx).1
    rw [sectionNamed, houtline]
    show sectionAmong _ (headings (contentsOf cs)) c.heading = _
    rw [headings_contentsOf hblank]
    exact sectionAmong_assemble h hc hlower

/-- A guide with two chapters. The title has a header of its own in it, the second
heading a point, and the first body what looks like an entry. -/
theorem parts_of_document_two_chapters :
    let summary : Chapter := ⟨"1".toList, "summary".toList, "3".toList, "2.works7".toList,
      by decide, by decide, by decide⟩
    let rules : Chapter := ⟨"2".toList, "sec.rules".toList, "12".toList, "askus.".toList,
      by decide, by decide, by decide⟩
    let raw := "My Contents ".toList ++ ("Table of Contents ".toList ++ ("1. Summary 3 ".toList ++
      ("2. Sec. Rules 12 ".toList ++ ("Summary 2. Works 7 ".toList ++
        "Sec. Rules Ask us.".toList))))
    let d := Document.ofText ⟨"guide.docx"⟩ raw ⟨[]⟩
    (d.content = assemble "mycontents".toList [summary, rules] ∧
      Unambiguous "mycontents".toList [summary, rules]) ∧
      firstPage d.content = .ok "mycontents".toList ∧
      outline d.content = .ok ⟨"1.summary3".toList ++ "2.sec.rules12".toList,
        "summary2.works7".toList ++ "sec.rulesaskus.".toList⟩ ∧
      sectionNamed d.content summary.heading = .ok summary.body ∧
      sectionNamed d.content rules.heading = .ok rules.body := by
  intro summary rules raw d
  have hcontent : d.content = assemble "mycontents".toList [summary, rules] := by decide +kernel
  have hclear : Unambiguous "mycontents".toList [summary, rules] := by decide +kernel
  obtain ⟨hpage, houtline, hsections⟩ := parts_of_document rfl hcontent hclear
  exact ⟨⟨hcontent, hclear⟩, hpage, houtline, hsections summary (by simp),
    hsections rules (by simp)⟩

end CartridgeAudit.Document
