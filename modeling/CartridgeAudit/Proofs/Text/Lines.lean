/-
CartridgeAudit/Proofs/Text/Lines.lean

The lines of a text.

Lines are what stands between the newlines, and each has the byte offset of its
start.  A scanner sees a line as a stretch without a newline that ends at a
newline or at the end of the text (`Cursor.LineRest`); there is one such stretch
from every place (`Cursor.LineRest.unique`), and from the start of a line on it
is the first of the lines that are left (`lines_of_end`, `lines_of_newline`).
-/
import CartridgeAudit.Proofs.Text.Searching

namespace CartridgeAudit

/-! ### Lines with their offsets -/

/-- A line: what stands in it, and the byte offset of its start. -/
structure Line where
  text : Text
  offset : Nat
  deriving DecidableEq

/-- Pieces of a text with a newline between any two of them, from a byte offset
on. -/
def linesFrom : Nat → List Text → List Line
  | _, [] => []
  | offset, piece :: rest => ⟨piece, offset⟩ :: linesFrom (offset + piece.byteLength + 1) rest

/-- The lines of a text. -/
def Text.lines (t : Text) : List Line := linesFrom 0 (t.splitOn (· = '\n'))

/-- What stands in a line from the first place on where a text begins. -/
def Line.fromFirst (needle : Text) (l : Line) : Option Line :=
  (Text.find? needle l.text).map fun c => ⟨c.after, l.offset + c.offset⟩

theorem text_mem_of_mem_linesFrom {l : Line} {offset : Nat} {pieces : List Text}
    (h : l ∈ linesFrom offset pieces) : l.text ∈ pieces := by
  induction pieces generalizing offset with
  | nil => cases h
  | cons piece rest ih =>
    rcases List.mem_cons.1 h with rfl | h
    · exact List.mem_cons_self
    · exact List.mem_cons_of_mem piece (ih h)

theorem Text.not_mem_of_mem_lines {l : Line} {t : Text} (h : l ∈ t.lines) : '\n' ∉ l.text := by
  have hpiece := text_mem_of_mem_linesFrom h
  rw [splitOn_eq_splitOnP] at hpiece
  intro hmem
  exact of_decide_eq_false (eq_false_of_mem_splitOnP hpiece '\n' hmem) rfl

namespace Cursor

/-- The lines from the start of a line on. -/
def lines (c : Cursor) : List Line := linesFrom c.offset (Text.splitOn (· = '\n') c.after)

theorem lines_start (t : Text) : t.start.lines = t.lines := rfl

/-! ### What is left of a line -/

/-- Reading `rest` leads to the end of the line. -/
structure LineRest (c : Cursor) (rest : Text) (stop : Cursor) : Prop where
  leads : c.Leads rest stop
  not_mem : '\n' ∉ rest
  ends : stop.after = [] ∨ ∃ xs, stop.after = '\n' :: xs

variable {c stop stop' : Cursor} {rest rest' : Text}

theorem exists_lineRest (c : Cursor) : ∃ rest stop, c.LineRest rest stop := by
  obtain ⟨before, after⟩ := c
  induction after generalizing before with
  | nil => exact ⟨[], ⟨before, []⟩, .refl _, List.not_mem_nil, .inl rfl⟩
  | cons x xs ih =>
    by_cases hx : x = '\n'
    · exact ⟨[], ⟨before, x :: xs⟩, .refl _, List.not_mem_nil, .inr ⟨xs, by rw [hx]⟩⟩
    · obtain ⟨rest, stop, hleads, hmem, hends⟩ := ih (x :: before)
      refine ⟨x :: rest, stop, (Leads.cons before x xs).trans hleads, ?_, hends⟩
      simpa [eq_comm, hx] using hmem

/-- Further on in a line, less of it is left. -/
theorem LineRest.of_le {d : Cursor} (h : c.LineRest rest stop) (hc : c ≤ d) (hd : d ≤ stop) :
    ∃ s r, rest = s ++ r ∧ d.LineRest r stop := by
  obtain ⟨s, r, rfl, -, hr⟩ := h.leads.split_of_le hc hd
  exact ⟨s, r, rfl, hr, fun hmem => h.not_mem (List.mem_append_right s hmem), h.ends⟩

/-- A stretch without a newline stays in the line. -/
theorem LineRest.le_stop {d : Cursor} {s : Text} (h : c.LineRest rest stop) (hs : c.Leads s d)
    (hmem : '\n' ∉ s) : d ≤ stop := by
  rcases lt_or_le_of_le h.leads.le hs.le with hd | hstop
  · exact hd.le
  obtain ⟨u, r, rfl, -, hr⟩ := hs.split_of_le h.leads.le hstop
  cases r with
  | nil => exact (leads_nil_iff.1 hr).ge
  | cons x r =>
    -- behind the end of the line there is a newline or nothing
    have hahead := hr.ahead
    rcases h.ends with hend | ⟨xs, hend⟩
    · rw [hend] at hahead
      cases hahead
    · rw [hend] at hahead
      obtain ⟨rfl, -⟩ := List.cons.inj hahead
      exact absurd (List.mem_append_right u List.mem_cons_self) hmem

/-- A line ends at one place only. -/
theorem LineRest.unique (h : c.LineRest rest stop) (h' : c.LineRest rest' stop') :
    rest = rest' ∧ stop = stop' := by
  obtain rfl := le_antisymm (h'.le_stop h.leads h.not_mem) (h.le_stop h'.leads h'.not_mem)
  exact ⟨h.leads.upTo_eq.symm.trans h'.leads.upTo_eq, rfl⟩

/-! ### The lines that are left -/

theorem LineRest.eq_false_of_mem (h : c.LineRest rest stop) :
    ∀ x ∈ rest, decide (x = '\n') = false := by
  intro x hx
  rw [decide_eq_false_iff_not]
  rintro rfl
  exact h.not_mem hx

theorem LineRest.lines_of_end (h : c.LineRest rest stop) (hend : stop.after = []) :
    c.lines = [⟨rest, c.offset⟩] := by
  rw [lines, Text.splitOn_eq_splitOnP, h.leads.ahead, hend, List.append_nil,
    List.splitOnP_eq_singleton h.eq_false_of_mem]
  rfl

theorem LineRest.lines_of_newline {xs : Text} (h : c.LineRest rest stop)
    (hend : stop.after = '\n' :: xs) : c.lines = ⟨rest, c.offset⟩ :: stop.next.lines := by
  obtain ⟨before, after⟩ := stop
  obtain rfl : after = '\n' :: xs := hend
  have ho : offset ⟨'\n' :: before, xs⟩ = c.offset + rest.byteLength + 1 :=
    ((Leads.cons before '\n' xs).offset_eq).trans (congrArg (· + 1) h.leads.offset_eq)
  rw [lines, Text.splitOn_eq_splitOnP, h.leads.ahead,
    List.splitOnP_append_cons_of_forall_mem h.eq_false_of_mem '\n' (by simp), linesFrom, ← ho,
    lines, Text.splitOn_eq_splitOnP]
  rfl

/-- Induction along the lines that are left. -/
@[elab_as_elim]
theorem lines_induction {P : Cursor → Prop}
    (last : ∀ c rest stop, c.LineRest rest stop → stop.after = [] → P c)
    (newline : ∀ c rest stop xs, c.LineRest rest stop → stop.after = '\n' :: xs → P stop.next → P c)
    (c : Cursor) : P c := by
  -- less is ahead behind each newline
  induction hn : c.after.length using Nat.strongRecOn generalizing c with
  | _ n ih =>
    obtain ⟨rest, stop, h⟩ := c.exists_lineRest
    rcases h.ends with hend | ⟨xs, hend⟩
    · exact last c rest stop h hend
    · refine newline c rest stop xs h hend (ih _ ?_ _ rfl)
      have hahead := congrArg List.length h.leads.ahead
      rw [hend, List.length_append, List.length_cons] at hahead
      rw [next, hend]
      show xs.length < n
      omega

end Cursor

end CartridgeAudit
