/-
CartridgeAudit/Proofs/Text/Letters.lean

What the tables of characters say.

A table lists closed ranges of code points, so whatever is said about all
characters of two tables is said about pairs of ranges and read off the tables:
no word character is blank (`isBlank_eq_false_of_isWord`), and no code point
that a capital letter moves to moves again (`lowerCode_lowerCode`).  So a
character in lower case is settled (`isSettled_of_mem_lower`), a text of
settled characters is its own lower case, and lower-casing twice is
lower-casing once (`lower_lower`), the two special capitals included.
-/
import CartridgeAudit.Text.LetterCase
import CartridgeAudit.Text.Word

namespace CartridgeAudit.Text

/-! ### Ranges -/

/-- One of two closed ranges ends before the other begins. -/
def rangesApart (a b : Nat × Nat) : Bool := Nat.blt a.2 b.1 || Nat.blt b.2 a.1

theorem not_mem_of_rangesApart {a b : Nat × Nat} (h : rangesApart a b = true) {n : Nat}
    (ha : a.1 ≤ n ∧ n ≤ a.2) : ¬ (b.1 ≤ n ∧ n ≤ b.2) := by
  rw [rangesApart, Bool.or_eq_true, Nat.blt_eq, Nat.blt_eq] at h
  omega

theorem inRanges_iff {ranges : List (Nat × Nat)} {n : Nat} :
    inRanges ranges n = true ↔ ∃ r ∈ ranges, r.1 ≤ n ∧ n ≤ r.2 := by
  simp [inRanges]

theorem inAlternating_iff {ranges : List (Nat × Nat)} {n : Nat} :
    inAlternating ranges n = true ↔ ∃ r ∈ ranges, (r.1 ≤ n ∧ n ≤ r.2) ∧ (n - r.1) % 2 = 0 := by
  simp [inAlternating]

/-! ### Word characters and blanks -/

theorem wordRanges_apart :
    (wordRanges.all fun r => blankRanges.all (rangesApart r)) = true := by
  decide +kernel

/-- A word character is not blank. -/
theorem isBlank_eq_false_of_isWord {c : Char} (h : isWord c = true) : isBlank c = false := by
  rw [Bool.eq_false_iff]
  intro hblank
  obtain ⟨b, hb, hin⟩ := inRanges_iff.1 hblank
  unfold isWord at h
  split at h
  · next hascii =>
    have hall : ∀ n : Fin 128, ((Char.ofNat n).isAlphanum || Char.ofNat n == '_') = true →
        isBlank (Char.ofNat n) = false := by decide
    have hno := hall ⟨c.toNat, hascii⟩
    rw [Char.ofNat_toNat] at hno
    rw [hno h] at hblank
    cases hblank
  · obtain ⟨r, hr, hword⟩ := inRanges_iff.1 h
    have hapart := List.all_eq_true.1 (List.all_eq_true.1 wordRanges_apart r hr) b hb
    exact not_mem_of_rangesApart hapart hword hin

/-! ### Digits -/

/-- The digits of the basic alphabet are digits. -/
theorem isDigit_of_ascii {x : Char} (h : x.isDigit = true) : isDigit x = true := by
  have hlt : x.toNat < 0x80 := by
    simp only [Char.isDigit, Bool.and_eq_true, decide_eq_true_eq, UInt32.le_iff_toNat_le] at h
    have hle : x.toNat ≤ 57 := h.2
    omega
  rw [isDigit, if_pos hlt, h]

/-! ### Moves to lower case -/

/-- A code point moves with its run, or to the next one, or stays. -/
inductive Lowers (n : Nat) : Nat → Prop
  | shifts {r : Nat × Nat × Nat} (h : r ∈ lowerShifts) (hn : r.1 ≤ n ∧ n ≤ r.2.1) :
      Lowers n (r.2.2 + (n - r.1))
  | alternates {r : Nat × Nat} (h : r ∈ lowerAlternating) (hn : r.1 ≤ n ∧ n ≤ r.2)
      (heven : (n - r.1) % 2 = 0) : Lowers n (n + 1)
  | stays (h : lowerCode n = n) : Lowers n n

theorem lowers_lowerCode (n : Nat) : Lowers n (lowerCode n) := by
  cases hfind : lowerShifts.find? fun r => r.1 ≤ n && n ≤ r.2.1 with
  | some r =>
    have hin : r.1 ≤ n ∧ n ≤ r.2.1 := by simpa using List.find?_some hfind
    have hcode : lowerCode n = r.2.2 + (n - r.1) := by rw [lowerCode, hfind]
    rw [hcode]
    exact .shifts (List.mem_of_find?_eq_some hfind) hin
  | none =>
    by_cases halt : inAlternating lowerAlternating n = true
    · obtain ⟨r, hr, hin, heven⟩ := inAlternating_iff.1 halt
      have hcode : lowerCode n = n + 1 := by
        rw [lowerCode, hfind]
        exact if_pos halt
      rw [hcode]
      exact .alternates hr hin heven
    · have hcode : lowerCode n = n := by
        rw [lowerCode, hfind]
        exact if_neg halt
      have hstays := Lowers.stays hcode
      rwa [hcode]

/-- The ranges that runs of capitals move to. -/
def shiftTargets : List (Nat × Nat) := lowerShifts.map fun r => (r.2.2, r.2.2 + (r.2.1 - r.1))

/-- The ranges that alternating capitals move to, with every other code point. -/
def alternatingTargets : List (Nat × Nat) := lowerAlternating.map fun r => (r.1 + 1, r.2 + 1)

/-- The code points that no letter in lower case has: the capitals of the basic
alphabet, the two special capitals, and what is no character. -/
def reservedCodes : List (Nat × Nat) :=
  [(0x41, 0x5a), (0x130, 0x130), (0x3a3, 0x3a3), (0xd800, 0xdfff)]

theorem targets_apart_shifts :
    ((shiftTargets ++ alternatingTargets).all fun a =>
      lowerShifts.all fun r => rangesApart a (r.1, r.2.1)) = true := by
  decide +kernel

theorem targets_apart_reserved :
    ((shiftTargets ++ alternatingTargets).all fun a =>
      reservedCodes.all (rangesApart a) && Nat.blt a.2 0x110000) = true := by
  decide +kernel

/-- The few targets of runs that lie among alternating letters are single and
at an odd distance. -/
theorem shiftTargets_apart_alternating :
    (shiftTargets.all fun a => lowerAlternating.all fun b =>
      rangesApart a b || (Nat.beq a.1 a.2 && Nat.beq ((a.1 - b.1) % 2) 1)) = true := by
  decide +kernel

/-- Alternating runs do not reach into each other. -/
theorem alternatingTargets_apart_alternating :
    (lowerAlternating.all fun a => lowerAlternating.all fun b =>
      rangesApart (a.1 + 1, a.2 + 1) b || Nat.beq a.1 b.1) = true := by
  decide +kernel

section

variable {n m : Nat}

/-- What a code point moves to lies in one of the targets. -/
theorem Lowers.exists_target (h : Lowers n m) (hne : m ≠ n) :
    ∃ a ∈ shiftTargets ++ alternatingTargets, a.1 ≤ m ∧ m ≤ a.2 := by
  cases h with
  | @shifts r hr hn =>
    have hmem : (r.2.2, r.2.2 + (r.2.1 - r.1)) ∈ shiftTargets := List.mem_map_of_mem hr
    exact ⟨_, List.mem_append_left _ hmem, by omega⟩
  | @alternates r hr hn =>
    have hmem : (r.1 + 1, r.2 + 1) ∈ alternatingTargets :=
      List.mem_map_of_mem (f := fun r => (r.1 + 1, r.2 + 1)) hr
    exact ⟨_, List.mem_append_right _ hmem, by omega⟩
  | stays => exact absurd rfl hne

theorem Lowers.not_inAlternating (h : Lowers n m) (hne : m ≠ n) :
    inAlternating lowerAlternating m = false := by
  rw [Bool.eq_false_iff]
  intro halt
  obtain ⟨b, hb, hin, heven⟩ := inAlternating_iff.1 halt
  cases h with
  | @shifts r hr hn =>
    have hmem : (r.2.2, r.2.2 + (r.2.1 - r.1)) ∈ shiftTargets := List.mem_map_of_mem hr
    have hpair := List.all_eq_true.1 (List.all_eq_true.1 shiftTargets_apart_alternating _ hmem) b hb
    rw [Bool.or_eq_true, Bool.and_eq_true, Nat.beq_eq, Nat.beq_eq] at hpair
    rcases hpair with hapart | ⟨hsingle, hodd⟩
    · exact not_mem_of_rangesApart hapart (by omega) hin
    · simp only at hsingle hodd
      omega
  | @alternates r hr hn heven' =>
    have hpair := List.all_eq_true.1 (List.all_eq_true.1 alternatingTargets_apart_alternating r hr)
      b hb
    rw [Bool.or_eq_true, Nat.beq_eq] at hpair
    rcases hpair with hapart | hsame
    · exact not_mem_of_rangesApart hapart (by omega) hin
    · -- within one run the next code point is an odd number of steps in
      omega
  | stays => exact absurd rfl hne

end

/-- What a code point moves to does not move again. -/
theorem lowerCode_lowerCode (n : Nat) : lowerCode (lowerCode n) = lowerCode n := by
  have h := lowers_lowerCode n
  by_cases hne : lowerCode n = n
  · rw [hne, hne]
  · obtain ⟨a, ha, hin⟩ := h.exists_target hne
    have hfind : (lowerShifts.find? fun r => r.1 ≤ lowerCode n && lowerCode n ≤ r.2.1) = none := by
      rw [List.find?_eq_none]
      intro r hr hcovers
      have hapart := List.all_eq_true.1 (List.all_eq_true.1 targets_apart_shifts a ha) r hr
      exact not_mem_of_rangesApart hapart hin (by simpa using hcovers)
    rw [lowerCode, hfind]
    simp only [h.not_inAlternating hne, Bool.false_eq_true, if_false]

/-- No code point moves to a reserved one or beyond the last one. -/
theorem lowerCode_not_reserved {n : Nat} (hne : lowerCode n ≠ n) :
    lowerCode n < 0x110000 ∧ ∀ b ∈ reservedCodes, ¬ (b.1 ≤ lowerCode n ∧ lowerCode n ≤ b.2) := by
  obtain ⟨a, ha, hin⟩ := (lowers_lowerCode n).exists_target hne
  have hall := List.all_eq_true.1 targets_apart_reserved a ha
  rw [Bool.and_eq_true, Nat.blt_eq] at hall
  obtain ⟨hapart, hlast⟩ := hall
  refine ⟨by omega, ?_⟩
  intro b hb
  exact not_mem_of_rangesApart (List.all_eq_true.1 hapart b hb) hin

/-! ### Settled characters -/

/-- A character that lower-casing leaves as it is, wherever it stands. -/
structure IsSettled (c : Char) : Prop where
  lowerChar_eq : lowerChar c = c
  ne_dotted : c ≠ '\u0130'
  ne_sigma : c ≠ '\u03a3'

theorem IsSettled.lowerIn_eq {c : Char} (h : IsSettled c) (before after : Text) :
    lowerIn before c after = [c] := by
  rw [lowerIn, if_neg h.ne_dotted, if_neg h.ne_sigma, h.lowerChar_eq]

theorem isSettled_of_ascii {c : Char} (h : c.toNat < 0x80) : IsSettled c.toLower := by
  have hall : ∀ n : Fin 128, lowerChar (Char.ofNat n).toLower = (Char.ofNat n).toLower ∧
      (Char.ofNat n).toLower ≠ '\u0130' ∧ (Char.ofNat n).toLower ≠ '\u03a3' := by decide +kernel
  have hc := hall ⟨c.toNat, h⟩
  rw [Char.ofNat_toNat] at hc
  exact ⟨hc.1, hc.2.1, hc.2.2⟩

theorem isSettled_of_stays {c : Char} (h : ¬ c.toNat < 0x80) (hstays : lowerCode c.toNat = c.toNat)
    (hdotted : c ≠ '\u0130') (hsigma : c ≠ '\u03a3') : IsSettled c := by
  refine ⟨?_, hdotted, hsigma⟩
  rw [lowerChar, if_neg h, hstays, Char.ofNat_toNat]

/-- A character above the basic alphabet moves to one that is settled. -/
theorem isSettled_ofNat_lowerCode {c : Char} (h : ¬ c.toNat < 0x80) (hdotted : c ≠ '\u0130')
    (hsigma : c ≠ '\u03a3') : IsSettled (Char.ofNat (lowerCode c.toNat)) := by
  have hidem := lowerCode_lowerCode c.toNat
  by_cases hne : lowerCode c.toNat = c.toNat
  · rw [hne, Char.ofNat_toNat]
    exact isSettled_of_stays h hne hdotted hsigma
  · obtain ⟨hlast, hreserved⟩ := lowerCode_not_reserved hne
    generalize lowerCode c.toNat = m at hidem hlast hreserved ⊢
    have hcapital := hreserved (0x41, 0x5a) (by decide)
    have hdotted := hreserved (0x130, 0x130) (by decide)
    have hsigma := hreserved (0x3a3, 0x3a3) (by decide)
    have hsurrogate := hreserved (0xd800, 0xdfff) (by decide)
    simp only at hcapital hdotted hsigma hsurrogate
    have hvalid : m.isValidChar := by
      unfold Nat.isValidChar
      omega
    have htoNat : (Char.ofNat m).toNat = m := by
      rw [Char.ofNat, dif_pos hvalid]
      rfl
    refine ⟨?_, ?_, ?_⟩
    · unfold lowerChar
      split
      · next hascii =>
        have hall : ∀ n : Fin 128, ¬ (0x41 ≤ n.val ∧ n.val ≤ 0x5a) →
            (Char.ofNat n).toLower = Char.ofNat n := by decide
        rw [htoNat] at hascii
        exact hall ⟨m, hascii⟩ hcapital
      · rw [htoNat, hidem]
    · intro heq
      have hcode : m = 0x130 := by
        rw [← htoNat, heq]
        rfl
      omega
    · intro heq
      have hcode : m = 0x3a3 := by
        rw [← htoNat, heq]
        rfl
      omega

theorem isSettled_of_mem_lowerIn {before after : Text} {c x : Char}
    (h : x ∈ lowerIn before c after) : IsSettled x := by
  -- what the two special capitals become stays
  have hstays : ∀ n ∈ [0x307, 0x3c2, 0x3c3], lowerCode n = n := by decide +kernel
  have hdot : IsSettled '\u0307' :=
    isSettled_of_stays (by decide) (hstays 0x307 (by decide)) (by decide) (by decide)
  have hfinal : IsSettled '\u03c2' :=
    isSettled_of_stays (by decide) (hstays 0x3c2 (by decide)) (by decide) (by decide)
  have hsmall : IsSettled '\u03c3' :=
    isSettled_of_stays (by decide) (hstays 0x3c3 (by decide)) (by decide) (by decide)
  unfold lowerIn at h
  split at h
  · rcases List.mem_cons.1 h with rfl | h
    · exact isSettled_of_ascii (c := 'i') (by decide)
    · exact List.mem_singleton.1 h ▸ hdot
  · next hdotted =>
    split at h
    · obtain rfl := List.mem_singleton.1 h
      split
      · exact hfinal
      · exact hsmall
    · next hsigma =>
      obtain rfl := List.mem_singleton.1 h
      unfold lowerChar
      split
      · next hascii => exact isSettled_of_ascii hascii
      · next hascii => exact isSettled_ofNat_lowerCode hascii hdotted hsigma

theorem isSettled_of_mem_lowerFrom {before t : Text} {x : Char} (h : x ∈ lowerFrom before t) :
    IsSettled x := by
  induction t generalizing before with
  | nil => cases h
  | cons c cs ih =>
    rcases List.mem_append.1 h with h | h
    · exact isSettled_of_mem_lowerIn h
    · exact ih h

theorem lowerFrom_eq_self {before t : Text} (h : ∀ x ∈ t, IsSettled x) :
    lowerFrom before t = t := by
  induction t generalizing before with
  | nil => rfl
  | cons c cs ih =>
    obtain ⟨hc, hcs⟩ := List.forall_mem_cons.1 h
    rw [lowerFrom, hc.lowerIn_eq, ih hcs]
    rfl

end CartridgeAudit.Text
