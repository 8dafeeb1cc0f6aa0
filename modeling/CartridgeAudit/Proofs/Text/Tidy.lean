/-
CartridgeAudit/Proofs/Text/Tidy.lean

The words of a text, and a text on one line.

Words are found by splitting at every blank and dropping what is empty.  Said without
splitting they are the maximal runs of characters that are not blank, one after the
other (`WordsOf`), and a text has one list of them only (`wordsOf_iff`).

Tidying puts one space between the words.  The words can be read back
(`words_intercalate`), so tidying twice changes nothing more; and the spaces are the
only blanks that are left, each on its own between two words (`isTidy_tidy`).
-/
import CartridgeAudit.Proofs.Text.Searching
import CartridgeAudit.Text.Blank
import Mathlib.Data.List.Chain
import Mathlib.Data.List.TakeWhile

namespace CartridgeAudit.Text

variable {t gap w rest : Text} {ws : List Text}

/-! ### Words -/

/-- A word: at least one character, and none that is blank. -/
def IsWord (w : Text) : Prop := w ≠ [] ∧ ∀ x ∈ w, isBlank x = false

/-- The words of a text, one after the other: each goes on up to a blank or the end. -/
inductive WordsOf : Text → List Text → Prop
  | blank {gap : Text} : (∀ x ∈ gap, isBlank x = true) → WordsOf gap []
  | word {gap w rest : Text} {ws : List Text} : (∀ x ∈ gap, isBlank x = true) → IsWord w →
      (∀ x ∈ rest.head?, isBlank x = true) → WordsOf rest ws →
        WordsOf (gap ++ (w ++ rest)) (w :: ws)

theorem words_nil : words [] = [] := rfl

theorem words_cons_of_isBlank {x : Char} (h : isBlank x = true) (t : Text) :
    words (x :: t) = words t := by
  rw [words, splitOn, if_pos h]
  rfl

theorem words_append_of_blank (h : ∀ x ∈ gap, isBlank x = true) (t : Text) :
    words (gap ++ t) = words t := by
  induction gap with
  | nil => rfl
  | cons x gap ih =>
    obtain ⟨hx, hgap⟩ := List.forall_mem_cons.1 h
    rw [List.cons_append, words_cons_of_isBlank hx, ih hgap]

theorem words_word_append (hw : IsWord w) (hrest : ∀ x ∈ rest.head?, isBlank x = true) :
    words (w ++ rest) = w :: words rest := by
  obtain ⟨hne, hword⟩ := hw
  have hkept (pieces : List Text) :
      (w :: pieces).filter (!·.isEmpty) = w :: pieces.filter (!·.isEmpty) :=
    List.filter_cons_of_pos (by simpa using hne)
  cases rest with
  | nil =>
    rw [List.append_nil, words, splitOn_eq_splitOnP, List.splitOnP_eq_singleton hword, hkept]
    rfl
  | cons x rest =>
    have hx : isBlank x = true := hrest x rfl
    rw [words_cons_of_isBlank hx, words, splitOn_eq_splitOnP,
      List.splitOnP_append_cons_of_forall_mem hword x hx, hkept, words, splitOn_eq_splitOnP]

theorem WordsOf.eq_words (h : WordsOf t ws) : ws = words t := by
  induction h with
  | @blank gap hgap => rw [← List.append_nil gap, words_append_of_blank hgap, words_nil]
  | word hgap hw hrest _ ih => rw [words_append_of_blank hgap, words_word_append hw hrest, ← ih]

/-- A text is blank, or a word and the rest stand behind blanks. -/
theorem blank_or_word (t : Text) : (∀ x ∈ t, isBlank x = true) ∨
    ∃ gap w rest, t = gap ++ (w ++ rest) ∧ (∀ x ∈ gap, isBlank x = true) ∧ IsWord w ∧
      ∀ x ∈ rest.head?, isBlank x = true := by
  have hgap : ∀ x ∈ t.takeWhile isBlank, isBlank x = true := fun x hx => List.mem_takeWhile_imp hx
  have hsplit : t.takeWhile isBlank ++ t.dropWhile isBlank = t := List.takeWhile_append_dropWhile
  have hfirst := List.head?_dropWhile_not isBlank t
  generalize t.takeWhile isBlank = gap at hgap hsplit
  generalize t.dropWhile isBlank = u at hfirst hsplit
  cases u with
  | nil =>
    rw [List.append_nil] at hsplit
    exact .inl (hsplit ▸ hgap)
  | cons x u =>
    refine .inr ⟨gap, (x :: u).takeWhile (!isBlank ·), (x :: u).dropWhile (!isBlank ·), ?_, hgap,
      ⟨?_, ?_⟩, ?_⟩
    · rw [List.takeWhile_append_dropWhile, hsplit]
    · rw [List.takeWhile_cons_of_pos (by simpa using hfirst)]
      exact List.cons_ne_nil _ _
    · intro y hy
      simpa using List.mem_takeWhile_imp hy
    · intro y hy
      have hblank := List.head?_dropWhile_not (!isBlank ·) (x :: u)
      rw [Option.mem_def.1 hy] at hblank
      simpa using hblank

theorem wordsOf_words (t : Text) : WordsOf t (words t) := by
  -- less is left behind each word
  induction hn : t.length using Nat.strongRecOn generalizing t with
  | _ n ih =>
    subst hn
    rcases blank_or_word t with hblank | ⟨gap, w, rest, rfl, hgap, hw, hrest⟩
    · rw [← List.append_nil t, words_append_of_blank hblank, words_nil, List.append_nil]
      exact .blank hblank
    · have hlength := List.length_pos_iff.2 hw.1
      rw [words_append_of_blank hgap, words_word_append hw hrest]
      refine .word hgap hw hrest (ih rest.length ?_ rest rfl)
      simp only [List.length_append]
      omega

/-- **A text has one list of words.** -/
theorem wordsOf_iff : WordsOf t ws ↔ ws = words t := by
  constructor
  · exact WordsOf.eq_words
  · rintro rfl
    exact wordsOf_words t

theorem isWord_of_mem_words (h : w ∈ words t) : IsWord w := by
  obtain ⟨hpiece, hne⟩ := List.mem_filter.1 h
  rw [splitOn_eq_splitOnP] at hpiece
  exact ⟨by simpa using hne, eq_false_of_mem_splitOnP hpiece⟩

theorem filter_eq_nil_of_blank (h : ∀ x ∈ gap, isBlank x = true) :
    gap.filter (!isBlank ·) = [] := by
  rw [List.filter_eq_nil_iff]
  intro x hx
  simp [h x hx]

theorem IsWord.filter_eq_self (h : IsWord w) : w.filter (!isBlank ·) = w := by
  rw [List.filter_eq_self]
  intro x hx
  simp [h.2 x hx]

/-- All that is not blank stands in the words. -/
theorem WordsOf.filter_eq_flatten (h : WordsOf t ws) : t.filter (!isBlank ·) = ws.flatten := by
  induction h with
  | blank hgap => exact filter_eq_nil_of_blank hgap
  | word hgap hw _ _ ih =>
    rw [List.filter_append, List.filter_append, filter_eq_nil_of_blank hgap, hw.filter_eq_self, ih,
      List.nil_append, List.flatten_cons]

/-! ### One space between words -/

theorem join_eq_intercalate (separator : Text) (ts : List Text) :
    join separator ts = separator.intercalate ts := by
  induction ts with
  | nil => rfl
  | cons t ts ih =>
    cases ts with
    | nil => simp [join]
    | cons u ts =>
      rw [join, ih, List.intercalate_cons_cons]
      exact List.cons_ne_nil u ts

/-- No blank at either end, and between them only spaces, of which no two stand together. -/
structure IsTidy (t : Text) : Prop where
  first : ∀ x ∈ t.head?, isBlank x = false
  last : ∀ x ∈ t.getLast?, isBlank x = false
  space : ∀ x ∈ t, isBlank x = true → x = ' '
  single : t.IsChain fun x y => isBlank x = true → isBlank y = false

theorem IsWord.isTidy (h : IsWord w) : IsTidy w where
  first x hx := h.2 x (List.mem_of_mem_head? hx)
  last x hx := h.2 x (List.mem_of_getLast? hx)
  space x hx hblank := by
    rw [h.2 x hx] at hblank
    cases hblank
  single := List.Pairwise.isChain <|
    List.pairwise_of_forall_mem_list fun _ _ y hy (_ : isBlank _ = true) => h.2 y hy

/-- A word may be put in front, with a space behind it. -/
theorem IsTidy.word_append (h : IsTidy t) (hne : t ≠ []) (hw : IsWord w) :
    IsTidy (w ++ ' ' :: t) where
  first x hx := by
    rw [List.head?_append_of_ne_nil _ hw.1] at hx
    exact hw.isTidy.first x hx
  last x hx := by
    rw [List.getLast?_append_of_ne_nil _ (List.cons_ne_nil _ _),
      List.getLast?_cons_of_ne_nil hne] at hx
    exact h.last x hx
  space x hx hblank := by
    rcases List.mem_append.1 hx with hx | hx
    · exact hw.isTidy.space x hx hblank
    · rcases List.mem_cons.1 hx with rfl | hx
      · rfl
      · exact h.space x hx hblank
  single := by
    rw [List.isChain_append, List.isChain_cons]
    refine ⟨hw.isTidy.single, ⟨fun x hx _ => h.first x hx, h.single⟩, fun x hx y _ hblank => ?_⟩
    rw [hw.isTidy.last x hx] at hblank
    cases hblank

/-- Words with spaces between them are read back. -/
theorem words_intercalate (h : ∀ w ∈ ws, IsWord w) : words ([' '].intercalate ws) = ws := by
  induction ws with
  | nil => rfl
  | cons w ws ih =>
    obtain ⟨hw, hws⟩ := List.forall_mem_cons.1 h
    cases ws with
    | nil =>
      rw [List.intercalate_singleton]
      have hone : words (w ++ []) = [w] := words_word_append hw (by simp)
      rwa [List.append_nil] at hone
    | cons u ws =>
      rw [List.intercalate_cons_cons, List.append_assoc, words_word_append hw (by simp; decide),
        List.singleton_append, words_cons_of_isBlank (by decide), ih hws]

theorem isTidy_intercalate (h : ∀ w ∈ ws, IsWord w) : IsTidy ([' '].intercalate ws) := by
  induction ws with
  | nil => exact ⟨by simp, by simp, by simp, .nil⟩
  | cons w ws ih =>
    obtain ⟨hw, hws⟩ := List.forall_mem_cons.1 h
    cases ws with
    | nil =>
      rw [List.intercalate_singleton]
      exact hw.isTidy
    | cons u ws =>
      have hne : [' '].intercalate (u :: ws) ≠ [] := by
        intro hnil
        have hwords := words_intercalate hws
        rw [hnil, words_nil] at hwords
        cases hwords
      rw [List.intercalate_cons_cons, List.append_assoc]
      exact (ih hws).word_append hne hw

/-! ### Tidy texts -/

theorem tidy_eq_intercalate (t : Text) : tidy t = [' '].intercalate (words t) :=
  join_eq_intercalate _ _

theorem isTidy_tidy (t : Text) : IsTidy (tidy t) := by
  rw [tidy_eq_intercalate]
  exact isTidy_intercalate fun w => isWord_of_mem_words

theorem words_tidy (t : Text) : words (tidy t) = words t := by
  rw [tidy_eq_intercalate, words_intercalate fun w => isWord_of_mem_words]

/-- Tidying again changes nothing. -/
theorem tidy_tidy (t : Text) : tidy (tidy t) = tidy t := by rw [tidy, words_tidy, ← tidy]

/-- What is not blank is left as it is. -/
theorem filter_tidy (t : Text) : (tidy t).filter (!isBlank ·) = t.filter (!isBlank ·) := by
  rw [(wordsOf_words (tidy t)).filter_eq_flatten, (wordsOf_words t).filter_eq_flatten, words_tidy]

/-- A tidy text is one line. -/
theorem newline_not_mem_tidy (t : Text) : '\n' ∉ tidy t := by
  intro hmem
  have hspace := (isTidy_tidy t).space '\n' hmem (by decide)
  exact absurd hspace (by decide)

end CartridgeAudit.Text
