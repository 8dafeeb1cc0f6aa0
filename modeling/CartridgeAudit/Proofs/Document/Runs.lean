/-
CartridgeAudit/Proofs/Document/Runs.lean

Runs of text, written into markup and read back.

A run is written as a tag that begins with `<w:t`, its text, and `</w:t>`.  Tables,
cells and tabs have tags that begin in the same way, and reading does not tell
them from the tags of runs: behind each `<w:t` the tag is passed, and what stands
there up to the next `<` is taken, with a space behind it
(`textRuns_runStart_append`).  So such a tag adds nothing but a space if another
tag follows directly, and other markup adds nothing at all (`textRuns_append`).

Reading goes on as if what it has passed had not been there.  An occurrence of
`<w:t` could only be overlooked where two parts meet; but the second part begins
with `<`, and in `<w:t` this character stands only at the beginning
(`not_runStart_prefix_append`).  The main result, `textRuns_documentOf`, follows run
by run.
-/
import CartridgeAudit.Document.Runs
import CartridgeAudit.Proofs.Text.Searching
import CartridgeAudit.Text.Blank
import Mathlib.Data.List.Infix

namespace CartridgeAudit.Document

open Text

/-! ### Writing and its conditions -/

/-- What may stand in a tag: no angle bracket. -/
def InTag (t : Text) : Prop := '<' ∉ t ∧ '>' ∉ t

instance (t : Text) : Decidable (InTag t) := inferInstanceAs (Decidable ('<' ∉ t ∧ '>' ∉ t))

/-- A run of text with its tag, and the markup behind it up to the next run. -/
structure Run where
  /-- what stands in the tag behind `<w:t` -/
  attributes : Text
  text : Text
  behind : Text
  attributes_inside : InTag attributes
  text_outside : '<' ∉ text

/-- What closes a run. -/
def runEnd : Text := "</w:t>".toList

/-- A run as it is written. -/
def Run.written (r : Run) : Text :=
  runStart ++ (r.attributes ++ '>' :: (r.text ++ (runEnd ++ r.behind)))

/-- A document: markup, and then its runs. -/
def documentOf (front : Text) (runs : List Run) : Text := front ++ runs.flatMap Run.written

/-- A tag is ahead, or the end. -/
def AtTag (t : Text) : Prop := ∀ x ∈ t.head?, x = '<'

/-- A tag that begins like one of a run stands at the front, and directly behind
it is another tag or the end. -/
def OpensTag (t : Text) : Prop :=
  ∃ inside rest, t = runStart ++ (inside ++ '>' :: rest) ∧ InTag inside ∧ AtTag rest

/-- Markup without text in runs: wherever `<w:t` begins, it opens a tag with
another one directly behind. -/
def OnlyTags (t : Text) : Prop := ∀ s, s <:+ t → runStart <+: s → OpensTag s

theorem opensTag_iff {t : Text} :
    OpensTag t ↔ runStart <+: t ∧
      ∃ p ∈ cutAt '>' (t.drop runStart.length), '<' ∉ p.1 ∧ AtTag p.2 := by
  constructor
  · rintro ⟨inside, rest, rfl, hinside, hrest⟩
    refine ⟨List.prefix_append _ _, (inside, rest), ?_, hinside.1, hrest⟩
    rw [List.drop_left]
    exact cutAt_eq_some_iff.2 ⟨rfl, hinside.2⟩
  · rintro ⟨⟨u, rfl⟩, ⟨inside, rest⟩, hcut, hopen, hrest⟩
    rw [List.drop_left] at hcut
    obtain ⟨rfl, hclose⟩ := cutAt_eq_some_iff.1 hcut
    exact ⟨inside, rest, rfl, ⟨hopen, hclose⟩, hrest⟩

instance (t : Text) : Decidable (AtTag t) :=
  decidable_of_iff (t.head?.getD '<' = '<') (by cases t <;> simp [AtTag])

instance (t : Text) : Decidable (OpensTag t) := decidable_of_iff _ opensTag_iff.symm

instance (t : Text) : Decidable (OnlyTags t) :=
  decidable_of_iff (∀ s ∈ t.tails, runStart <+: s → OpensTag s) (by
    simp only [List.mem_tails, OnlyTags])

/-! ### Splitting at the tags of runs -/

section

variable {s t u piece : Text} {rest : List Text} {x : Char}

theorem exists_splitBy_eq_cons (needle : Text) (skip : Nat) (t : Text) :
    ∃ piece rest, splitBy needle skip t = piece :: rest := by
  fun_induction splitBy needle skip t with
  | case1 => exact ⟨[], [], rfl⟩
  | case2 skip c cs ih => exact ih
  | case3 c cs h ih => exact ⟨[], _, rfl⟩
  | case4 c cs h hnil ih => exact ⟨[c], [], rfl⟩
  | case5 c cs h piece rest hcons ih => exact ⟨c :: piece, rest, rfl⟩

theorem splitBy_runStart_append (t : Text) :
    splitBy runStart 0 (runStart ++ t) = [] :: splitBy runStart 0 t := rfl

theorem splitBy_cons (h : ¬ runStart <+: x :: t) (ht : splitBy runStart 0 t = piece :: rest) :
    splitBy runStart 0 (x :: t) = (x :: piece) :: rest := by
  rw [splitBy, if_neg (mt List.isPrefixOf_iff_prefix.1 h), ht]

/-- `<w:t` begins with its only `<`. -/
theorem not_runStart_prefix_cons (hx : x ≠ '<') : ¬ runStart <+: x :: t := by
  intro h
  exact hx (List.cons_prefix_cons.1 h).1.symm

theorem splitBy_append (hs : '<' ∉ s) (ht : splitBy runStart 0 t = piece :: rest) :
    splitBy runStart 0 (s ++ t) = (s ++ piece) :: rest := by
  induction s with
  | nil => exact ht
  | cons x s ih =>
    obtain ⟨hx, hs⟩ := List.ne_and_not_mem_of_not_mem_cons hs
    exact splitBy_cons (not_runStart_prefix_cons (Ne.symm hx)) (ih hs)

/-- The first piece goes up to a tag. -/
theorem AtTag.of_splitBy (h : AtTag t) (ht : splitBy runStart 0 t = piece :: rest) :
    AtTag piece := by
  intro x hx
  cases t with
  | nil =>
    obtain ⟨rfl, -⟩ := List.cons.inj ht
    cases hx
  | cons y t =>
    by_cases hrun : runStart <+: y :: t
    · obtain ⟨t', ht'⟩ := hrun
      rw [← ht', splitBy_runStart_append] at ht
      obtain ⟨rfl, -⟩ := List.cons.inj ht
      cases hx
    · obtain ⟨p, r, hpr⟩ := exists_splitBy_eq_cons runStart 0 t
      rw [splitBy_cons hrun hpr] at ht
      obtain ⟨rfl, -⟩ := List.cons.inj ht
      obtain rfl := Option.some.inj hx
      exact h y rfl

/-! ### Reading, step by step -/

/-- A character at which no tag of a run begins is passed. -/
theorem textRuns_cons (h : ¬ runStart <+: x :: t) : textRuns (x :: t) = textRuns t := by
  obtain ⟨piece, rest, ht⟩ := exists_splitBy_eq_cons runStart 0 t
  rw [textRuns, textRuns, splitBy_cons h ht, ht]
  rfl

theorem textRuns_append_of_not_mem (hs : '<' ∉ s) : textRuns (s ++ t) = textRuns t := by
  induction s with
  | nil => rfl
  | cons x s ih =>
    obtain ⟨hx, hs⟩ := List.ne_and_not_mem_of_not_mem_cons hs
    exact (textRuns_cons (not_runStart_prefix_cons (Ne.symm hx))).trans (ih hs)

/-- Behind a tag its text is taken, up to the next tag. -/
theorem runText_append (hs : '>' ∉ s) (ht : '<' ∉ t) (hu : AtTag u) :
    runText (s ++ '>' :: (t ++ u)) = t ++ [' '] := by
  have htake : (t ++ u).takeWhile (· != '<') = t := by
    have hall : ∀ x ∈ t, (x != '<') = true := by
      intro x hx
      exact bne_iff_ne.2 (ne_of_mem_of_not_mem hx ht)
    rw [List.takeWhile_append_of_pos hall]
    cases u with
    | nil => simp
    | cons y u =>
      obtain rfl := hu y rfl
      simp
  rw [runText, cutAt_eq_some_iff.2 ⟨rfl, hs⟩]
  exact congrArg (· ++ [' ']) htake

/-- **One step of reading**: a tag is passed and the text behind it is taken. -/
theorem textRuns_runStart_append {inside : Text} (hinside : InTag inside) (ht : '<' ∉ t)
    (hu : AtTag u) :
    textRuns (runStart ++ (inside ++ '>' :: (t ++ u))) = t ++ ' ' :: textRuns u := by
  obtain ⟨hopen, hclose⟩ := hinside
  have hfront : '<' ∉ inside ++ '>' :: t := by simp [hopen, ht]
  have hassoc : inside ++ '>' :: (t ++ u) = (inside ++ '>' :: t) ++ u := by simp
  obtain ⟨piece, rest, hpieces⟩ := exists_splitBy_eq_cons runStart 0 u
  calc textRuns (runStart ++ (inside ++ '>' :: (t ++ u)))
      = (splitBy runStart 0 ((inside ++ '>' :: t) ++ u)).flatMap runText := by
        rw [textRuns, splitBy_runStart_append, hassoc]
        rfl
    _ = runText (inside ++ '>' :: (t ++ piece)) ++ rest.flatMap runText := by
        rw [splitBy_append hfront hpieces, List.flatMap_cons]
        simp
    _ = t ++ ' ' :: textRuns u := by
        rw [runText_append hclose ht (hu.of_splitBy hpieces), textRuns, hpieces]
        simp

/-! ### Markup between runs -/

theorem OnlyTags.suffix (h : OnlyTags t) (hs : s <:+ t) : OnlyTags s :=
  fun _ hr => h _ (hr.trans hs)

theorem onlyTags_of_absent (h : ¬ runStart <:+: t) : OnlyTags t :=
  fun _ hs hrun => absurd (hrun.isInfix.trans hs.isInfix) h

/-- `<w:t` does not begin in one part and end in the next. -/
theorem not_runStart_prefix_append (hs : s ≠ []) (h : ¬ runStart <+: s) (hu : AtTag u) :
    ¬ runStart <+: s ++ u := by
  intro hrun
  rcases List.prefix_or_prefix_of_prefix hrun (List.prefix_append s u) with hin | ⟨w, hw⟩
  · exact h hin
  · obtain ⟨y, w, rfl⟩ : ∃ y v, w = y :: v := by
      refine List.exists_cons_of_ne_nil ?_
      rintro rfl
      rw [List.append_nil] at hw
      exact h (hw ▸ List.prefix_refl _)
    have hwu : y :: w <+: u := by
      rw [← hw] at hrun
      exact (List.prefix_append_right_inj s).1 hrun
    obtain ⟨v, rfl⟩ := hwu
    obtain rfl := hu y rfl
    -- its only `<` would stand behind a character of the first part
    obtain ⟨a, s, rfl⟩ := List.exists_cons_of_ne_nil hs
    have htail : '<' ∈ runStart.tail := by
      rw [← hw]
      simp
    exact absurd htail (by decide)

/-- **Markup adds nothing but a space for each tag** that begins like one of a
run, and nothing if there is none. -/
theorem textRuns_append (hs : OnlyTags s) (hu : AtTag u) :
    ∃ n, textRuns (s ++ u) = List.replicate n ' ' ++ textRuns u ∧
      (¬ runStart <:+: s → n = 0) := by
  induction hlength : s.length using Nat.strongRecOn generalizing s with
  | _ k ih =>
    cases s with
    | nil => exact ⟨0, rfl, fun _ => rfl⟩
    | cons x t =>
      by_cases hrun : runStart <+: x :: t
      · obtain ⟨inside, rest, heq, hinside, hrest⟩ := hs _ (List.suffix_refl _) hrun
        have hsuffix : rest <:+ x :: t := by
          rw [heq]
          exact ⟨runStart ++ (inside ++ ['>']), by simp⟩
        have hshorter : rest.length < k := by
          rw [← hlength, heq]
          simp only [List.length_append, List.length_cons]
          omega
        have hbehind : AtTag (rest ++ u) := by
          cases rest with
          | nil => exact hu
          | cons y rest => exact hrest
        obtain ⟨n, hn, -⟩ := ih _ hshorter (hs.suffix hsuffix) rfl
        refine ⟨n + 1, ?_, fun h => absurd hrun.isInfix h⟩
        have hstep := textRuns_runStart_append (t := []) hinside List.not_mem_nil hbehind
        rw [heq, List.append_assoc, List.append_assoc]
        exact hstep.trans (congrArg (' ' :: ·) hn)
      · obtain ⟨n, hn, hzero⟩ := ih t.length (by simp [← hlength])
          (hs.suffix (List.suffix_cons x t)) rfl
        have hpass := not_runStart_prefix_append (List.cons_ne_nil x t) hrun hu
        refine ⟨n, (textRuns_cons hpass).trans hn, fun h => hzero fun hin => h ?_⟩
        exact hin.trans (List.suffix_cons x t).isInfix

end

/-! ### Runs -/

theorem isBlank_space : isBlank ' ' = true := rfl

theorem atTag_flatMap_written (runs : List Run) : AtTag (runs.flatMap Run.written) := by
  intro x hx
  cases runs with
  | nil => cases hx
  | cons r runs => exact (Option.some.inj hx).symm

/-- One run is read back, with spaces for the markup behind it. -/
theorem Run.textRuns_written_append (r : Run) {u : Text} (hr : OnlyTags r.behind) (hu : AtTag u) :
    ∃ n, textRuns (r.written ++ u) = r.text ++ ' ' :: (List.replicate n ' ' ++ textRuns u) ∧
      (¬ runStart <:+: r.behind → n = 0) := by
  obtain ⟨n, hn, hzero⟩ := textRuns_append hr hu
  refine ⟨n, ?_, hzero⟩
  have hend : textRuns (runEnd ++ (r.behind ++ u)) = textRuns (r.behind ++ u) := by
    have hpass : ¬ runStart <+: '<' :: ("/w:t>".toList ++ (r.behind ++ u)) := by
      simp [runStart]
    exact (textRuns_cons hpass).trans (textRuns_append_of_not_mem (by decide))
  have hread := textRuns_runStart_append (u := runEnd ++ (r.behind ++ u)) r.attributes_inside
    r.text_outside fun x hx => (Option.some.inj hx).symm
  rw [hend, hn] at hread
  simpa [Run.written] using hread

theorem textRuns_flatMap_written {runs : List Run}
    (h : ∀ r ∈ runs, ¬ runStart <:+: r.behind) :
    textRuns (runs.flatMap Run.written) = runs.flatMap fun r => r.text ++ [' '] := by
  induction runs with
  | nil => rfl
  | cons r runs ih =>
    obtain ⟨hr, hrest⟩ := List.forall_mem_cons.1 h
    obtain ⟨n, hn, hzero⟩ :=
      r.textRuns_written_append (onlyTags_of_absent hr) (atTag_flatMap_written runs)
    rw [hzero hr, ih hrest] at hn
    rw [List.flatMap_cons, hn, List.flatMap_cons]
    simp

theorem filter_textRuns_flatMap_written {runs : List Run}
    (h : ∀ r ∈ runs, OnlyTags r.behind) :
    (textRuns (runs.flatMap Run.written)).filter (!isBlank ·) =
      (runs.flatMap fun r => r.text ++ [' ']).filter (!isBlank ·) := by
  induction runs with
  | nil => rfl
  | cons r runs ih =>
    obtain ⟨hr, hrest⟩ := List.forall_mem_cons.1 h
    obtain ⟨n, hn, -⟩ := r.textRuns_written_append hr (atTag_flatMap_written runs)
    rw [List.flatMap_cons, hn, List.flatMap_cons]
    simp [isBlank_space, ih hrest]

/-- **Reading undoes writing**: of a document without other tags that begin like
one of a run, the texts of the runs are read, each with a space behind it.  If
there are such tags and each has another one directly behind it, what is read is
the same but for blanks. -/
theorem textRuns_documentOf (front : Text) (runs : List Run) :
    (¬ runStart <:+: front → (∀ r ∈ runs, ¬ runStart <:+: r.behind) →
      textRuns (documentOf front runs) = runs.flatMap fun r => r.text ++ [' ']) ∧
    (OnlyTags front → (∀ r ∈ runs, OnlyTags r.behind) →
      (textRuns (documentOf front runs)).filter (!isBlank ·) =
        (runs.flatMap fun r => r.text ++ [' ']).filter (!isBlank ·)) := by
  constructor
  · intro hfront hruns
    obtain ⟨n, hn, hzero⟩ :=
      textRuns_append (onlyTags_of_absent hfront) (atTag_flatMap_written runs)
    rw [documentOf, hn, hzero hfront, textRuns_flatMap_written hruns]
    rfl
  · intro hfront hruns
    obtain ⟨n, hn, -⟩ := textRuns_append hfront (atTag_flatMap_written runs)
    rw [documentOf, hn, List.filter_append, filter_textRuns_flatMap_written hruns]
    simp [isBlank_space]

/-- Two runs in a table, with a tab between them. -/
theorem textRuns_documentOf_table :
    let front := "<?xml?><w:body><w:tbl><w:tc><w:p><w:r>".toList
    let hello : Run := ⟨[], "Hello".toList, "</w:r><w:tab/><w:r>".toList, by decide, by decide⟩
    let world : Run := ⟨" xml:space=\"preserve\"".toList, "Wor ld".toList,
      "</w:r></w:p></w:tc></w:tbl></w:body>".toList, by decide, by decide⟩
    (OnlyTags front ∧ ∀ r ∈ [hello, world], OnlyTags r.behind) ∧
      (textRuns (documentOf front [hello, world])).filter (!isBlank ·) = "HelloWorld".toList ∧
      (¬ runStart <:+: world.behind ∧ ¬ runStart <:+: "<w:p>".toList) ∧
      textRuns (documentOf "<w:p>".toList [world]) = "Wor ld ".toList := by
  intro front hello world
  have hfront : OnlyTags front := by decide +kernel
  have hruns : ∀ r ∈ [hello, world], OnlyTags r.behind := by decide +kernel
  have hworld : ¬ runStart <:+: world.behind := by decide +kernel
  have hplain : ¬ runStart <:+: "<w:p>".toList := by decide +kernel
  refine ⟨⟨hfront, hruns⟩, ?_, ⟨hworld, hplain⟩, ?_⟩
  · exact ((textRuns_documentOf front [hello, world]).2 hfront hruns).trans (by decide +kernel)
  · exact (textRuns_documentOf "<w:p>".toList [world]).1 hplain (List.forall_mem_singleton.2 hworld)

end CartridgeAudit.Document
