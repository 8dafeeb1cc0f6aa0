/-
CartridgeAudit/Proofs/Markup/EarliestEnd.lean

Where the first of several targets ends.

A closing sequence is found by places (`endOf`).  Here it is looked for by bytes:
each target in the windows of its own width, and of the ends that are found the
smallest is taken (`earliestEnd`).  The first window begins a width before the
cursor, so that a target may begin before the cursor and end at it.  Near the
start of the text there is no room for a whole width, and behind the end there is
no window left; a window search meets both by its bounds alone, and it finds the
least offset from the cursor on that follows the target (`windowEnd_eq_some_iff`).

Bytes that are those of a target stand at a place, so both ways come to the same
end (`positionAfter_eq_earliestEnd`), also from a cursor inside a character.

Main result: `positionAfter_isLeast`, which says for both answers when each is
given.
-/
import CartridgeAudit.Proofs.Markup.Scanner
import CartridgeAudit.Proofs.Text.Bytes
import Mathlib.Order.Bounds.Basic

namespace CartridgeAudit.Markup

open Cursor

/-! ### Offsets behind a target -/

/-- The byte offsets, from a cursor on, before which the bytes of a text are those
of the target. -/
def offsetsAfter (text : Text) (cursor : Nat) (target : Text) : Set Nat :=
  {e | cursor ≤ e ∧ e ≤ text.byteLength ∧ text.slice (e - target.byteLength) e = target.utf8}

/-- The byte offsets, from a cursor on, that follow one of the targets. The empty
one does not count. -/
def offsetsAfterAny (text : Text) (cursor : Nat) (targets : List Text) : Set Nat :=
  {e | ∃ t ∈ targets, t ≠ [] ∧ e ∈ offsetsAfter text cursor t}

variable {text target : Text} {targets : List Text} {cursor e : Nat}

/-- By bytes, an offset follows a target where a place does. -/
theorem mem_offsetsAfter_iff (ht : target ≠ []) :
    e ∈ offsetsAfter text cursor target ↔
      cursor ≤ e ∧ ∃ m : Cursor, m.text = text ∧ m.offset = e ∧ m.isAfter target = true := by
  rw [← Text.slice_eq_utf8_iff ht]
  constructor
  · rintro ⟨hcursor, -, hslice⟩
    exact ⟨hcursor, hslice⟩
  · rintro ⟨hcursor, hslice⟩
    obtain ⟨m, rfl, rfl, -⟩ := (Text.slice_eq_utf8_iff ht).1 hslice
    exact ⟨hcursor, m.offset_le_byteLength, hslice⟩

theorem mem_offsetsAfterAny_iff :
    e ∈ offsetsAfterAny text cursor targets ↔
      cursor ≤ e ∧ ∃ m : Cursor, m.text = text ∧ m.offset = e ∧ Follows targets m := by
  constructor
  · rintro ⟨t, ht, hne, he⟩
    obtain ⟨hcursor, m, hm, ho, hafter⟩ := (mem_offsetsAfter_iff hne).1 he
    exact ⟨hcursor, m, hm, ho, t, ht, hne, hafter⟩
  · rintro ⟨hcursor, m, hm, ho, t, ht, hne, hafter⟩
    exact ⟨t, ht, hne, (mem_offsetsAfter_iff hne).2 ⟨hcursor, m, hm, ho, hafter⟩⟩

theorem isAfter_offset (c : Cursor) (t : Text) : isAfter c.text c.offset t = c.isAfter t := by
  rw [isAfter, Text.seek_offset]
  exact if_pos rfl

/-- The text up to an offset ends with a target if and only if the bytes there are
those of the target. -/
theorem isAfter_iff_slice :
    isAfter text e target = true ↔
      e ≤ text.byteLength ∧ text.slice (e - target.byteLength) e = target.utf8 := by
  cases hseek : text.seek e with
  | none =>
    have hend := Text.seek_eq_none hseek
    simp only [isAfter, hseek, Bool.false_eq_true, false_iff, not_and]
    omega
  | some c =>
    obtain ⟨rfl, hec, -⟩ := Text.seek_eq_some hseek
    have hlength := Nat.le_trans hec c.offset_le_byteLength
    by_cases ht : target = []
    · subst ht
      simp [isAfter, hseek, Cursor.isAfter, hlength, Text.slice, Text.utf8]
    · rw [Text.slice_eq_utf8_iff ht]
      constructor
      · intro h
        simp only [isAfter, hseek] at h
        split at h
        · next ho => exact ⟨hlength, c, rfl, ho, h⟩
        · exact absurd (List.isEmpty_iff.1 h) ht
      · rintro ⟨-, m, hm, rfl, h⟩
        rw [← hm, isAfter_offset, h]

/-! ### The windows of one target -/

/-- Where the first window of a width begins: a width before the cursor, as far as
the text has room for that. -/
def windowStart (text : Text) (cursor width : Nat) : Nat := min (cursor - width) text.byteLength

/-- The ends of the windows of a width, from left to right. -/
def windowEnds (text : Text) (cursor width : Nat) : List Nat :=
  List.range' (windowStart text cursor width + width)
    (text.byteLength - windowStart text cursor width + 1 - width)

/-- Whether a window that ends at `stop`, not before the cursor, holds the target. -/
def windowHolds (text : Text) (cursor : Nat) (target : Text) (stop : Nat) : Bool :=
  decide (cursor ≤ stop) && text.slice (stop - target.byteLength) stop == target.utf8

/-- The end of the first window that holds the target. -/
def windowEnd (text : Text) (cursor : Nat) (target : Text) : Option Nat :=
  (windowEnds text cursor target.byteLength).find? (windowHolds text cursor target)

theorem mem_windowEnds_iff {width : Nat} :
    e ∈ windowEnds text cursor width ↔
      windowStart text cursor width + width ≤ e ∧ e ≤ text.byteLength := by
  have hstart : windowStart text cursor width ≤ text.byteLength := Nat.min_le_right _ _
  rw [windowEnds, List.mem_range'_1]
  omega

/-- **The windows are enough, and none is too many**: the offsets that follow a
target are the ends of the windows that hold it. -/
theorem mem_offsetsAfter_iff_windowHolds :
    e ∈ offsetsAfter text cursor target ↔
      e ∈ windowEnds text cursor target.byteLength ∧ windowHolds text cursor target e = true := by
  rw [mem_windowEnds_iff, windowHolds, Bool.and_eq_true, decide_eq_true_eq, beq_iff_eq]
  constructor
  · rintro ⟨hcursor, hlength, hslice⟩
    -- at the start of the text the bytes themselves leave room for the target
    have hroom := Text.byteLength_le_of_slice_eq hslice
    have hstart : windowStart text cursor target.byteLength ≤ cursor - target.byteLength :=
      Nat.min_le_left _ _
    exact ⟨⟨by omega, hlength⟩, hcursor, hslice⟩
  · rintro ⟨⟨-, hlength⟩, hcursor, hslice⟩
    exact ⟨hcursor, hlength, hslice⟩

/-- The search in windows finds the least offset that follows the target. -/
theorem windowEnd_eq_some_iff :
    windowEnd text cursor target = some e ↔ IsLeast (offsetsAfter text cursor target) e := by
  rw [windowEnd, windowEnds, List.find?_range'_eq_some, ← windowEnds]
  constructor
  · rintro ⟨hholds, hwindow, hfirst⟩
    refine ⟨mem_offsetsAfter_iff_windowHolds.2 ⟨hwindow, hholds⟩, fun k hk => ?_⟩
    obtain ⟨hkwindow, hkholds⟩ := mem_offsetsAfter_iff_windowHolds.1 hk
    by_contra hlt
    have hno := hfirst k (mem_windowEnds_iff.1 hkwindow).1 (Nat.lt_of_not_le hlt)
    simp [hkholds] at hno
  · rintro ⟨hmem, hleast⟩
    obtain ⟨hwindow, hholds⟩ := mem_offsetsAfter_iff_windowHolds.1 hmem
    refine ⟨hholds, hwindow, fun k hk hke => ?_⟩
    rw [Bool.not_eq_true', ← Bool.not_eq_true]
    intro hkholds
    have hlength := (mem_windowEnds_iff.1 hwindow).2
    have hkwindow := mem_windowEnds_iff.2 ⟨hk, Nat.le_trans hke.le hlength⟩
    exact Nat.not_le.2 hke (hleast (mem_offsetsAfter_iff_windowHolds.2 ⟨hkwindow, hkholds⟩))

theorem windowEnd_eq_none_iff :
    windowEnd text cursor target = none ↔ ∀ e, e ∉ offsetsAfter text cursor target := by
  rw [windowEnd, List.find?_eq_none]
  simp only [mem_offsetsAfter_iff_windowHolds, not_and]

/-! ### The windows of all targets -/

/-- The smallest of the ends that the targets have in their windows. -/
def earliestEnd (text : Text) (cursor : Nat) (targets : List Text) : Option Nat :=
  ((targets.filter (!·.isEmpty)).filterMap (windowEnd text cursor)).min?

/-- The ends among which the smallest is taken. -/
theorem mem_filterMap_windowEnd_iff :
    e ∈ (targets.filter (!·.isEmpty)).filterMap (windowEnd text cursor) ↔
      ∃ t ∈ targets, t ≠ [] ∧ IsLeast (offsetsAfter text cursor t) e := by
  simp only [List.mem_filterMap, List.mem_filter, windowEnd_eq_some_iff, Bool.not_eq_true',
    List.isEmpty_eq_false_iff, and_assoc]

/-- An offset that follows a target is not before the end that is found for it. -/
theorem exists_le_of_mem_offsetsAfterAny (h : e ∈ offsetsAfterAny text cursor targets) :
    ∃ k ∈ (targets.filter (!·.isEmpty)).filterMap (windowEnd text cursor), k ≤ e := by
  obtain ⟨t, ht, hne, he⟩ := h
  cases hk : windowEnd text cursor t with
  | none => exact absurd he (windowEnd_eq_none_iff.1 hk e)
  | some k =>
    have hleast := windowEnd_eq_some_iff.1 hk
    exact ⟨k, mem_filterMap_windowEnd_iff.2 ⟨t, ht, hne, hleast⟩, hleast.2 he⟩

theorem earliestEnd_eq_some_iff :
    earliestEnd text cursor targets = some e ↔
      IsLeast (offsetsAfterAny text cursor targets) e := by
  rw [earliestEnd, List.min?_eq_some_iff]
  constructor
  · rintro ⟨hmem, hsmallest⟩
    obtain ⟨t, ht, hne, he, -⟩ := mem_filterMap_windowEnd_iff.1 hmem
    refine ⟨⟨t, ht, hne, he⟩, fun k hk => ?_⟩
    -- `k` may follow another target, whose own end is among those compared
    obtain ⟨k', hk', hle⟩ := exists_le_of_mem_offsetsAfterAny hk
    exact Nat.le_trans (hsmallest k' hk') hle
  · rintro ⟨⟨t, ht, hne, he⟩, hleast⟩
    refine ⟨mem_filterMap_windowEnd_iff.2 ⟨t, ht, hne, he, fun k hk => hleast ⟨t, ht, hne, hk⟩⟩, ?_⟩
    intro k hk
    obtain ⟨t', ht', hne', hk, -⟩ := mem_filterMap_windowEnd_iff.1 hk
    exact hleast ⟨t', ht', hne', hk⟩

theorem earliestEnd_eq_none_iff :
    earliestEnd text cursor targets = none ↔ ∀ e, e ∉ offsetsAfterAny text cursor targets := by
  rw [earliestEnd, List.min?_eq_none_iff, List.eq_nil_iff_forall_not_mem]
  constructor
  · intro hnone e he
    obtain ⟨k, hk, -⟩ := exists_le_of_mem_offsetsAfterAny he
    exact hnone k hk
  · intro hnone e he
    obtain ⟨t, ht, hne, hmem, -⟩ := mem_filterMap_windowEnd_iff.1 he
    exact hnone e ⟨t, ht, hne, hmem⟩

/-! ### By places and by bytes -/

/-- A place from the one that is sought on is a place from the cursor on. -/
theorem mem_offsetsAfterAny_of_seek {c m : Cursor} (hc : text.seek cursor = some c) (hm : c ≤ m)
    (hfollows : Follows targets m) : m.offset ∈ offsetsAfterAny text cursor targets := by
  obtain ⟨rfl, ho, -⟩ := Text.seek_eq_some hc
  have hcm := offset_le_of_le hm
  exact mem_offsetsAfterAny_iff.2 ⟨Nat.le_trans ho hcm, m, text_eq_of_le hm, rfl, hfollows⟩

/-- **Both searches come to the same end**: the first place that follows a target
is the smallest end of a window that holds one. -/
theorem positionAfter_eq_earliestEnd (text : Text) (cursor : Nat) (targets : List Text) :
    positionAfter text cursor targets =
      match earliestEnd text cursor targets with
      | some e => .ok e
      | none => .error (.missingSequence targets cursor) := by
  rw [positionAfter]
  cases hend : earliestEnd text cursor targets with
  | some e =>
    obtain ⟨hmem, hleast⟩ := earliestEnd_eq_some_iff.1 hend
    -- the smallest end is the offset of a place, which is the one that the scan comes to
    obtain ⟨hcursor, m, rfl, rfl, hfollows⟩ := mem_offsetsAfterAny_iff.1 hmem
    cases hseek : Text.seek m.text cursor with
    | none =>
      have := Text.seek_eq_none hseek
      have := m.offset_le_byteLength
      omega
    | some c =>
      obtain ⟨-, -, hfirst⟩ := Text.seek_eq_some hseek
      have hcm : c ≤ m := hfirst m rfl hcursor
      have hm : endOf targets c = some m := by
        refine endOf_eq_some_iff.2 ⟨hcm, hfollows, fun k hk hkfollows => ?_⟩
        have ht : m.text = k.text := (text_eq_of_le hcm).trans (text_eq_of_le hk).symm
        exact (le_iff_offset_le ht).2 (hleast (mem_offsetsAfterAny_of_seek hseek hk hkfollows))
      rw [Option.bind_some, hm]
  | none =>
    have hnone := earliestEnd_eq_none_iff.1 hend
    cases hseek : text.seek cursor with
    | none => rfl
    | some c =>
      have hc : endOf targets c = none := endOf_eq_none_iff.2 fun m hm hfollows =>
        hnone _ (mem_offsetsAfterAny_of_seek hseek hm hfollows)
      rw [Option.bind_some, hc]

/-- **The position after one of several targets** is the least offset, from the
cursor on and not behind the end of the text, before which the bytes are those of
a target that is not empty; the target may begin before the cursor.  The sequence
is missing if and only if there is no such offset. The text up to the position
ends with one of the targets. -/
theorem positionAfter_isLeast (text : Text) (cursor : Nat) (targets : List Text) :
    (∀ e, positionAfter text cursor targets = .ok e ↔
      IsLeast (offsetsAfterAny text cursor targets) e) ∧
    (∀ failure, positionAfter text cursor targets = .error failure ↔
      failure = .missingSequence targets cursor ∧
        ∀ e, e ∉ offsetsAfterAny text cursor targets) ∧
    (∀ e, positionAfter text cursor targets = .ok e →
      ∃ t ∈ targets, t ≠ [] ∧ isAfter text e t = true) := by
  rw [positionAfter_eq_earliestEnd]
  cases hend : earliestEnd text cursor targets with
  | some stop =>
    have hleast := earliestEnd_eq_some_iff.1 hend
    refine ⟨fun e => ?_, fun failure => ?_, ?_⟩
    · constructor
      · rintro ⟨⟩
        exact hleast
      · exact fun h => congrArg Except.ok (hleast.unique h)
    · exact ⟨nofun, fun ⟨_, hnone⟩ => absurd hleast.1 (hnone stop)⟩
    · rintro e ⟨⟩
      obtain ⟨t, ht, hne, hmem⟩ := hleast.1
      exact ⟨t, ht, hne, isAfter_iff_slice.2 hmem.2⟩
  | none =>
    have hnone := earliestEnd_eq_none_iff.1 hend
    refine ⟨fun e => ?_, fun failure => ?_, nofun⟩
    · exact ⟨nofun, fun h => absurd h.1 (hnone e)⟩
    · constructor
      · rintro ⟨⟩
        exact ⟨rfl, hnone⟩
      · rintro ⟨rfl, -⟩
        rfl

/-- From a cursor inside the character that the target begins with, and with an
empty target and a longer one that ends later. -/
theorem positionAfter_isLeast_insideCharacter :
    positionAfter "aé/>-->".toList 2 ["".toList, "-->".toList, "é/>".toList] = .ok 5 ∧
      IsLeast (offsetsAfterAny "aé/>-->".toList 2 ["".toList, "-->".toList, "é/>".toList]) 5 ∧
      ∃ t ∈ ["".toList, "-->".toList, "é/>".toList], t ≠ [] ∧
        isAfter "aé/>-->".toList 5 t = true := by
  have h := positionAfter_isLeast "aé/>-->".toList 2 ["".toList, "-->".toList, "é/>".toList]
  have hok : positionAfter "aé/>-->".toList 2 ["".toList, "-->".toList, "é/>".toList] = .ok 5 := by
    decide
  exact ⟨hok, (h.1 5).1 hok, h.2.2 5 hok⟩

end CartridgeAudit.Markup
