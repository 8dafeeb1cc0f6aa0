/-
CartridgeAudit/Proofs/Rule/UrlLines.lean

The lines that are reported for a web address.

One expression takes the lines with an address, each as a whole, and a second one
lets those through in which the address is commented.  In the terms of places in
a line, the second says that a comment may be opened before some address
(`commentedUrl_isMatch_iff`), and it takes every `//` for an opening.  The slashes
of an address stand behind its beginning, so they do no harm to the address they
belong to, but they let every later one through: a line with two addresses is
never reported, even if none is commented (`noHardcodedUrls_passes_two`).

Main result: `noHardcodedUrls_reports`.
-/
import CartridgeAudit.Proofs.Pattern.Lines
import CartridgeAudit.Proofs.Rule.Findings

namespace CartridgeAudit

open Cursor

namespace Pattern

open Regex

/-- What is reported of the lines around a word: the lines that hold it and are
not let through, each as a whole. -/
theorem Regex.StandsFor.violationsWhere_around {r : Regex} {words : List Text}
    (h : r.StandsFor words) (bad : Text → Bool) (t : Text) :
    ∃ found, (around r).violationsWhere (fun m => bad m.text) t = .ok found ∧
      List.Forall₂ (fun l v => Violation.Marks v l.text l.offset)
        (t.lines.filter fun l => bad l.text && holdsAny words l.text) found := by
  have hlines : (t.lines.filter fun l => bad l.text && holdsAny words l.text) =
      (((around r).matchesIn t).filter fun m => bad m.text).map Match.line := by
    rw [← List.filter_filter, ← h.map_matchesIn_around, List.filter_map]
    rfl
  rw [hlines]
  simp only [List.forall₂_map_left_iff]
  exact Violation.exists_mapM_new (fun m => m.start.offset) fun m hm =>
    text_ne_nil_of_mem_matchesIn h.isProper_around (List.mem_filter.1 hm).1

end Pattern

namespace Rule

open Pattern Regex

/-! ### Web addresses and comments in a line -/

/-- How web addresses begin. -/
def urlWords : List Text := ["http://".toList, "https://".toList]

/-- A web address begins here. -/
def UrlAt (c : Cursor) : Prop := ∃ w ∈ urlWords, w <+: c.after

/-- A double slash here belongs to a web address. -/
def InUrl (c : Cursor) : Prop :=
  "http:".toList <:+ c.before.reverse ∨ "https:".toList <:+ c.before.reverse

/-- A comment is opened here: by the star that comes first in a line, by `/*`, or
by `//` outside of web addresses. -/
inductive OpensComment (c : Cursor) : Prop
  | star : "*".toList <+: c.after → (∀ x ∈ c.before, Text.isBlank x = true) → OpensComment c
  | block : "/*".toList <+: c.after → OpensComment c
  | line : "//".toList <+: c.after → ¬ InUrl c → OpensComment c

instance (c : Cursor) : Decidable (UrlAt c) := inferInstanceAs (Decidable (∃ w ∈ urlWords, _))

instance (c : Cursor) : Decidable (InUrl c) := inferInstanceAs (Decidable (_ ∨ _))

instance (c : Cursor) : Decidable (OpensComment c) :=
  decidable_of_iff
    ("*".toList <+: c.after ∧ c.before.all Text.isBlank = true ∨ "/*".toList <+: c.after ∨
      "//".toList <+: c.after ∧ ¬ InUrl c) <| by
    constructor
    · rintro (⟨hstar, hblank⟩ | hblock | ⟨hline, hout⟩)
      · exact .star hstar (List.all_eq_true.1 hblank)
      · exact .block hblock
      · exact .line hline hout
    · rintro (⟨hstar, hblank⟩ | hblock | ⟨hline, hout⟩)
      · exact .inl ⟨hstar, List.all_eq_true.2 hblank⟩
      · exact .inr (.inl hblock)
      · exact .inr (.inr ⟨hline, hout⟩)

/-- A line has a web address, and no comment is opened before its first one. -/
def IsUncommented (line : Text) : Prop :=
  ∃ u : Cursor, u.text = line ∧ UrlAt u ∧
    (∀ c : Cursor, c.text = line → UrlAt c → u.offset ≤ c.offset) ∧
    ∀ c : Cursor, c.text = line → OpensComment c → u.offset ≤ c.offset

/-- A line has one web address. -/
def HasOneUrl (line : Text) : Prop := ∃! u : Cursor, u.text = line ∧ UrlAt u

instance (line : Text) : Decidable (IsUncommented line) :=
  decidable_of_iff
    (∃ u ∈ places [] line, UrlAt u ∧
      (∀ c ∈ places [] line, UrlAt c → u.offset ≤ c.offset) ∧
      ∀ c ∈ places [] line, OpensComment c → u.offset ≤ c.offset) <| by
    simp only [mem_places_start_iff, IsUncommented]

instance (line : Text) : Decidable (HasOneUrl line) :=
  decidable_of_iff
    (∃ u ∈ places [] line, UrlAt u ∧ ∀ c ∈ places [] line, UrlAt c → c = u) <| by
    simp only [mem_places_start_iff, HasOneUrl, ExistsUnique, and_assoc, and_imp]

theorem standsFor_urlStart : Catalog.urlStart.StandsFor urlWords where
  isProper := rfl
  matches_iff := by
    intro p q
    show (seq (seq (lit "http") (alt (lit "s") empty)) (lit "://")).Matches p q ↔ _
    simp only [matches_seq, matches_alt, matches_empty, lit, matches_literal, urlWords,
      List.mem_cons, List.not_mem_nil, or_false, exists_eq_or_imp, exists_eq_left]
    constructor
    · rintro ⟨b, ⟨a, hpa, hab | rfl⟩, hbq⟩
      · exact .inr ((hpa.trans hab).trans hbq)
      · exact .inl (hpa.trans hbq)
    · rintro (hpq | hpq)
      · obtain ⟨a, hpa, haq⟩ := Leads.exists_between (s := "http".toList) (r := "://".toList) hpq
        exact ⟨a, ⟨a, hpa, .inr rfl⟩, haq⟩
      · obtain ⟨b, hpb, hbq⟩ := Leads.exists_between (s := "https".toList) (r := "://".toList) hpq
        obtain ⟨a, hpa, hab⟩ := Leads.exists_between (s := "http".toList) (r := "s".toList) hpb
        exact ⟨b, ⟨a, hpa, .inl hab⟩, hbq⟩
  not_mem := by decide

/-! ### Web addresses lie apart -/

section

variable {c d u : Cursor} {line w : Text}

theorem exists_leads_of_prefix (h : w <+: c.after) : ∃ q, c.Leads w q := by
  obtain ⟨r, hr⟩ := h
  exact ⟨⟨w.reverse ++ c.before, r⟩, hr.symm, rfl⟩

theorem urlAt_iff : UrlAt u ↔ ∃ e, Catalog.urlStart.Matches u e := by
  simp only [standsFor_urlStart.matches_iff]
  constructor
  · rintro ⟨w, hw, r, hr⟩
    exact ⟨⟨w.reverse ++ u.before, r⟩, w, hw, hr.symm, rfl⟩
  · rintro ⟨e, w, hw, hleads⟩
    exact ⟨w, hw, e.after, hleads.ahead.symm⟩

theorem UrlAt.exists_after (h : UrlAt u) : ∃ r, u.after = 'h' :: r := by
  obtain ⟨w, hw, r, hr⟩ := h
  have hhead : ∀ w ∈ urlWords, ∃ s, w = 'h' :: s := by
    intro w hw
    simp only [urlWords, List.mem_cons, List.not_mem_nil, or_false] at hw
    rcases hw with rfl | rfl
    · exact ⟨"ttp://".toList, rfl⟩
    · exact ⟨"ttps://".toList, rfl⟩
  obtain ⟨s, rfl⟩ := hhead w hw
  exact ⟨s ++ r, hr.symm⟩

/-- No web address begins in a stretch without an `h`. -/
theorem UrlAt.le_of_leads (h : UrlAt u) (hd : d.Leads w c) (hw : 'h' ∉ w) (hdu : d ≤ u) :
    c ≤ u := by
  rcases lt_or_le_of_le hd.le hdu with hlt | hle
  · obtain ⟨s, r, rfl, -, hr⟩ := hd.split_of_le hdu hlt.le
    obtain ⟨x, r, rfl⟩ := List.exists_cons_of_ne_nil (hr.lt_iff.1 hlt)
    obtain ⟨t, ht⟩ := h.exists_after
    obtain ⟨rfl, -⟩ := List.cons.inj (hr.ahead.symm.trans ht)
    exact absurd (List.mem_append_right s List.mem_cons_self) hw
  · exact hle

/-- A line with a web address is one that holds a word for its beginning. -/
theorem holdsAny_urlWords_iff :
    holdsAny urlWords line = true ↔ ∃ u : Cursor, u.text = line ∧ UrlAt u := by
  rw [holdsAny_iff]
  constructor
  · rintro ⟨w, hw, s, r, rfl⟩
    exact ⟨⟨s.reverse, w ++ r⟩, by simp [Cursor.text], w, hw, r, rfl⟩
  · rintro ⟨u, rfl, w, hw, r, hr⟩
    exact ⟨w, hw, u.before.reverse, r, by rw [Cursor.text, ← hr, List.append_assoc]⟩

/-- The slashes of a web address come before the next address. -/
theorem UrlAt.exists_slashes (h : UrlAt u) :
    ∃ d : Cursor, "//".toList <+: d.after ∧ u < d ∧ ∀ v, UrlAt v → u < v → d < v := by
  have hparts : ∀ w ∈ urlWords, ∃ s, w = ['h'] ++ (s ++ "//".toList) ∧ 'h' ∉ s := by
    intro w hw
    simp only [urlWords, List.mem_cons, List.not_mem_nil, or_false] at hw
    rcases hw with rfl | rfl
    · exact ⟨"ttp:".toList, rfl, by decide⟩
    · exact ⟨"ttps:".toList, rfl, by decide⟩
  obtain ⟨w, hw, hprefix⟩ := h
  obtain ⟨s, rfl, hs⟩ := hparts w hw
  obtain ⟨e, he⟩ := exists_leads_of_prefix hprefix
  obtain ⟨a, hua, hae⟩ := he.exists_between
  obtain ⟨d, had, hde⟩ := hae.exists_between
  have hud : u < d := (hua.trans had).lt_iff.2 (by simp)
  refine ⟨d, ⟨e.after, hde.ahead.symm⟩, hud, fun v hv huv => ?_⟩
  -- behind the first `h` there is none up to the end of the slashes
  have hau : a ≤ v := by
    obtain ⟨before, after⟩ := u
    obtain ⟨xs, rfl, hnil⟩ := leads_cons_iff.1 hua
    obtain rfl := leads_nil_iff.1 hnil
    exact cons_lt_iff.1 huv
  have hslashes : 'h' ∉ s ++ "//".toList := by simp [hs]
  exact (hde.lt_iff.2 (by decide)).trans_le (hv.le_of_leads hae hslashes hau)

/-- A double slash that belongs to a web address stands behind its beginning. -/
theorem InUrl.exists_urlAt (h : InUrl c) (hslashes : "//".toList <+: c.after) :
    ∃ u, UrlAt u ∧ u < c := by
  obtain ⟨r, hr⟩ := hslashes
  rcases h with ⟨s, hs⟩ | ⟨s, hs⟩
  · have hbefore : c.before = "http:".toList.reverse ++ s.reverse := by
      rw [← List.reverse_append, hs, List.reverse_reverse]
    have hleads : Leads ⟨s.reverse, "http:".toList ++ c.after⟩ "http:".toList c := ⟨rfl, hbefore⟩
    refine ⟨_, ⟨"http://".toList, by decide, r, ?_⟩, hleads.lt_iff.2 (by decide)⟩
    rw [← hr]
    rfl
  · have hbefore : c.before = "https:".toList.reverse ++ s.reverse := by
      rw [← List.reverse_append, hs, List.reverse_reverse]
    have hleads : Leads ⟨s.reverse, "https:".toList ++ c.after⟩ "https:".toList c := ⟨rfl, hbefore⟩
    refine ⟨_, ⟨"https://".toList, by decide, r, ?_⟩, hleads.lt_iff.2 (by decide)⟩
    rw [← hr]
    rfl

end

/-! ### The expression for commented addresses -/

/-- What the expression takes for the opening of a comment: `//` anywhere. -/
inductive MayOpenComment (c : Cursor) : Prop
  | star : "*".toList <+: c.after → (∀ x ∈ c.before, Text.isBlank x = true) → MayOpenComment c
  | block : "/*".toList <+: c.after → MayOpenComment c
  | slashes : "//".toList <+: c.after → MayOpenComment c

theorem OpensComment.mayOpenComment {c : Cursor} (h : OpensComment c) : MayOpenComment c := by
  cases h with
  | star hstar hblank => exact .star hstar hblank
  | block hblock => exact .block hblock
  | line hline _ => exact .slashes hline

/-- The part of the expression that stands for the opening of a comment. -/
def commentMark : Regex :=
  (.assert .textStart ++ run .blank ++ lit "*") ||| (restOfLine ++ lit "//") |||
    (lit "/*" ++ maybe (lit "*"))

theorem commentedUrl_eq :
    Catalog.commentedUrl = commentMark ++ restOfLine ++ Catalog.urlStart ++ restOfLine := rfl

theorem matches_commentMark_iff {p q : Cursor} :
    commentMark.Matches p q ↔
      (p.before = [] ∧ ∃ s, (∀ x ∈ s, Text.isBlank x = true) ∧ p.Leads (s ++ "*".toList) q) ∨
      (∃ s, '\n' ∉ s ∧ p.Leads (s ++ "//".toList) q) ∨
      p.Leads "/*".toList q ∨ p.Leads "/**".toList q := by
  show (alt (alt (seq (seq (assert .textStart) (many .blank false)) (lit "*"))
    (seq restOfLine (lit "//"))) (seq (lit "/*") (alt (lit "*") empty))).Matches p q ↔ _
  simp only [matches_alt, matches_seq, matches_assert, matches_many, matches_restOfLine,
    matches_empty, lit, matches_literal, contains_blank_iff, Anchor.holds, List.isEmpty_iff,
    or_assoc]
  refine or_congr ⟨?_, ?_⟩ (or_congr ⟨?_, ?_⟩ ⟨?_, ?_⟩)
  · rintro ⟨b, ⟨a, ⟨hstart, rfl⟩, s, hab, hs⟩, hbq⟩
    exact ⟨hstart, s, hs, hab.trans hbq⟩
  · rintro ⟨hstart, s, hs, hpq⟩
    obtain ⟨b, hpb, hbq⟩ := hpq.exists_between
    exact ⟨b, ⟨p, ⟨hstart, rfl⟩, s, hpb, hs⟩, hbq⟩
  · rintro ⟨b, ⟨s, hs, hpb⟩, hbq⟩
    exact ⟨s, hs, hpb.trans hbq⟩
  · rintro ⟨s, hs, hpq⟩
    obtain ⟨b, hpb, hbq⟩ := hpq.exists_between
    exact ⟨b, ⟨s, hs, hpb⟩, hbq⟩
  · rintro ⟨b, hpb, hbq | rfl⟩
    · exact .inr (hpb.trans hbq)
    · exact .inl hpb
  · rintro (hpq | hpq)
    · exact ⟨q, hpq, .inr rfl⟩
    · obtain ⟨b, hpb, hbq⟩ := Leads.exists_between (s := "/*".toList) (r := "*".toList) hpq
      exact ⟨b, hpb, .inl hbq⟩

/-- In what the mark takes, a comment may be opened. -/
theorem mayOpenComment_of_matches {p q : Cursor} (h : commentMark.Matches p q) :
    ∃ c, p ≤ c ∧ c < q ∧ MayOpenComment c := by
  rcases matches_commentMark_iff.1 h with ⟨hstart, s, hs, hpq⟩ | ⟨s, -, hpq⟩ | hpq | hpq
  · obtain ⟨c, hpc, hcq⟩ := hpq.exists_between
    have hbefore : c.before = s.reverse := by rw [hpc.behind, hstart, List.append_nil]
    refine ⟨c, hpc.le, hcq.lt_iff.2 (by decide), .star ⟨q.after, hcq.ahead.symm⟩ ?_⟩
    rw [hbefore]
    exact fun x hx => hs x (List.mem_reverse.1 hx)
  · obtain ⟨c, hpc, hcq⟩ := hpq.exists_between
    exact ⟨c, hpc.le, hcq.lt_iff.2 (by decide), .slashes ⟨q.after, hcq.ahead.symm⟩⟩
  · exact ⟨p, le_rfl, hpq.lt_iff.2 (by decide), .block ⟨q.after, hpq.ahead.symm⟩⟩
  · exact ⟨p, le_rfl, hpq.lt_iff.2 (by decide), .block ⟨'*' :: q.after, hpq.ahead.symm⟩⟩

theorem MayOpenComment.exists_matches {c : Cursor} (h : MayOpenComment c) :
    ∃ p q w, p.text = c.text ∧ commentMark.Matches p q ∧ c.Leads w q ∧ 'h' ∉ w := by
  simp only [matches_commentMark_iff]
  cases h with
  | star hstar hblank =>
    obtain ⟨q, hq⟩ := exists_leads_of_prefix hstar
    have hstart : (Text.start c.text).Leads c.before.reverse c :=
      ⟨rfl, by simp [Text.start]⟩
    refine ⟨Text.start c.text, q, _, hstart.text_eq.symm, .inl ⟨rfl, _, ?_, hstart.trans hq⟩, hq,
      by decide⟩
    exact fun x hx => hblank x (List.mem_reverse.1 hx)
  | block hblock =>
    obtain ⟨q, hq⟩ := exists_leads_of_prefix hblock
    exact ⟨c, q, _, rfl, .inr (.inr (.inl hq)), hq, by decide⟩
  | slashes hslashes =>
    obtain ⟨q, hq⟩ := exists_leads_of_prefix hslashes
    exact ⟨c, q, _, rfl, .inr (.inl ⟨[], List.not_mem_nil, hq⟩), hq, by decide⟩

/-- An address is commented if a comment may be opened before it. -/
theorem commentedUrl_isMatch_iff {line : Text} (hline : '\n' ∉ line) :
    Catalog.commentedUrl.isMatch line = true ↔
      ∃ c u : Cursor, c.text = line ∧ MayOpenComment c ∧ UrlAt u ∧ c < u := by
  rw [commentedUrl_eq, isMatch_iff]
  show (∃ p q, _ ∧
    (seq (seq (seq commentMark restOfLine) Catalog.urlStart) restOfLine).Matches p q) ↔ _
  simp only [matches_seq]
  constructor
  · rintro ⟨p, q, rfl, e, ⟨u, ⟨a, hmark, hgap⟩, hurl⟩, -⟩
    obtain ⟨c, hpc, hca, hopens⟩ := mayOpenComment_of_matches hmark
    exact ⟨c, u, text_eq_of_le hpc, hopens, urlAt_iff.2 ⟨e, hurl⟩,
      hca.trans_le (le_of_matches hgap)⟩
  · rintro ⟨c, u, rfl, hopens, hurl, hlt⟩
    obtain ⟨p, a, w, hp, hmark, hca, hw⟩ := hopens.exists_matches
    obtain ⟨s, hs⟩ := hurl.le_of_leads hca hw hlt.le
    obtain ⟨e, he⟩ := urlAt_iff.1 hurl
    have hmem : '\n' ∉ s := by
      intro hmem
      rw [← hca.text_eq, Cursor.text, hs.ahead] at hline
      exact hline (List.mem_append_right _ (List.mem_append_left _ hmem))
    exact ⟨p, e, hp, e, ⟨u, ⟨a, hmark, matches_restOfLine.2 ⟨s, hmem, hs⟩⟩, he⟩,
      matches_restOfLine.2 ⟨[], List.not_mem_nil, .refl e⟩⟩

/-! ### What is reported -/

variable {line : Text}

/-- If no comment may be opened before an address, there is one address. -/
theorem hasOneUrl_of_forall {u : Cursor} (hu : u.text = line) (hurl : UrlAt u)
    (hnone : ∀ c v : Cursor, c.text = line → MayOpenComment c → UrlAt v → ¬ c < v) :
    HasOneUrl line := by
  -- of two addresses, the slashes of the first stand before the second
  have hfirst : ∀ v w : Cursor, v.text = line → UrlAt v → UrlAt w → ¬ v < w := by
    intro v w hv hurlv hurlw hlt
    obtain ⟨d, hslashes, hvd, hnext⟩ := hurlv.exists_slashes
    exact hnone d w ((text_eq_of_le hvd.le).trans hv) (.slashes hslashes) hurlw (hnext w hurlw hlt)
  refine ⟨u, ⟨hu, hurl⟩, ?_⟩
  rintro v ⟨hv, hurlv⟩
  have htext : v.text = u.text := hv.trans hu.symm
  have hvu := hfirst v u hv hurlv hurl
  have huv := hfirst u v hu hurl hurlv
  rw [lt_iff_offset_lt htext] at hvu
  rw [lt_iff_offset_lt htext.symm] at huv
  exact eq_of_offset_eq htext (by omega)

/-- A line with one address that is not commented is left by the expression. -/
theorem IsUncommented.not_lt (h : IsUncommented line) (hone : HasOneUrl line) {c v : Cursor}
    (hc : c.text = line) (hopens : MayOpenComment c) (hv : UrlAt v) : ¬ c < v := by
  intro hlt
  obtain ⟨u, hu, hurl, -, hout⟩ := h
  obtain rfl : v = u := hone.unique ⟨(text_eq_of_le hlt.le).trans hc, hv⟩ ⟨hu, hurl⟩
  have hnot : ¬ OpensComment c := fun hcomment =>
    absurd (offset_lt_of_lt hlt) (Nat.not_lt.2 (hout c hc hcomment))
  cases hopens with
  | star hstar hblank => exact hnot (.star hstar hblank)
  | block hblock => exact hnot (.block hblock)
  | slashes hslashes =>
    -- slashes of an address are those of this one, which stand behind its beginning
    have hin : InUrl c := by
      by_contra hin
      exact hnot (.line hslashes hin)
    obtain ⟨w, hw, hwc⟩ := hin.exists_urlAt hslashes
    have hwtext : w.text = line := (text_eq_of_le hwc.le).symm.trans hc
    obtain rfl : w = v := hone.unique ⟨hwtext, hw⟩ ⟨hu, hurl⟩
    exact lt_asymm hlt hwc

theorem reports_line_iff (hline : '\n' ∉ line) :
    (!Catalog.commentedUrl.isMatch line && holdsAny urlWords line) = true ↔
      IsUncommented line ∧ HasOneUrl line := by
  rw [Bool.and_eq_true, Bool.not_eq_true', ← Bool.not_eq_true, commentedUrl_isMatch_iff hline,
    holdsAny_urlWords_iff]
  constructor
  · rintro ⟨hnot, u, hu, hurl⟩
    have hnone : ∀ c v : Cursor, c.text = line → MayOpenComment c → UrlAt v → ¬ c < v :=
      fun c v hc hopens hv hlt => hnot ⟨c, v, hc, hopens, hv, hlt⟩
    refine ⟨⟨u, hu, hurl, fun v hv hurlv => ?_, fun c hc hopens => ?_⟩,
      hasOneUrl_of_forall hu hurl hnone⟩
    · rw [(hasOneUrl_of_forall hu hurl hnone).unique ⟨hv, hurlv⟩ ⟨hu, hurl⟩]
    · have hle := hnone c u hc hopens.mayOpenComment hurl
      rw [lt_iff_offset_lt (hc.trans hu.symm)] at hle
      exact Nat.not_lt.1 hle
  · rintro ⟨h, hone⟩
    refine ⟨fun ⟨c, v, hc, hopens, hv, hlt⟩ => h.not_lt hone hc hopens hv hlt, ?_⟩
    obtain ⟨u, hu, hurl, -⟩ := h
    exact ⟨u, hu, hurl⟩

/-- **The lines that are reported**, each as a whole and in their order, are those
with one web address that is not commented. -/
theorem noHardcodedUrls_reports (v : FileView) (notices : List Notice) :
    ∃ found, (noHardcodedUrls.check v notices).1 = .ok found ∧
      List.Forall₂ (fun l w => Violation.Marks w l.text l.offset)
        (v.content.lines.filter fun l => decide (IsUncommented l.text ∧ HasOneUrl l.text))
        found := by
  have hlines : (v.content.lines.filter fun l => decide (IsUncommented l.text ∧ HasOneUrl l.text)) =
      v.content.lines.filter fun l =>
        !Catalog.commentedUrl.isMatch l.text && holdsAny urlWords l.text := by
    refine List.filter_congr fun l hl => ?_
    rw [Bool.eq_iff_iff, reports_line_iff (Text.not_mem_of_mem_lines hl), decide_eq_true_iff]
  rw [hlines]
  exact standsFor_urlStart.violationsWhere_around (fun t => !Catalog.commentedUrl.isMatch t)
    v.content

/-- Two addresses, none of them in a comment. -/
theorem noHardcodedUrls_passes_two :
    uncommentedUrls "var a = 'http://x', b = 'http://y';\n".toList = .ok [] ∧
      ∃ l ∈ Text.lines "var a = 'http://x', b = 'http://y';\n".toList, IsUncommented l.text := by
  decide +kernel

end Rule

end CartridgeAudit
