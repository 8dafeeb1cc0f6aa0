/-
CartridgeAudit/Proofs/Script/Scopes.lean

Where scopes are asked for.

The end of a scope may be asked for only at a delimiter that opens one; anything
else is a bad call.  Scripts are asked at places that matches and captures end
at (`AsksScope`), and a delimiter opens a scope at each of them
(`opens_of_asksScope`).  So finding the functions and the routes of a script
fails in one way only, which is that a scope does not end (`ends_functions`,
`ends_endpoints`).  In templates an expression is entered at its brace
(`Lexer.atScope_of_reaches`).
-/
import CartridgeAudit.Proofs.Markup.Lexer
import CartridgeAudit.Proofs.Pattern.Captures
import CartridgeAudit.Proofs.Project.Steps
import CartridgeAudit.Proofs.Text.Searching
import CartridgeAudit.Script.Function
import Mathlib.Data.List.TakeWhile

namespace CartridgeAudit

open Cursor

/-- A scanner's failure that is not attributed to a file. -/
def AuditError.IsScan (e : AuditError) : Prop := ∃ cause, e = .scan cause

namespace Script

open Pattern Regex

/-! ### Opening delimiters -/

/-- A scope opens at a place. -/
def Opens (c : Cursor) : Prop := ∃ d x xs, c.after = x :: xs ∧ Delimiter.ofOpener? x = some d

theorem opens_of_leads_paren {c d : Cursor} (h : c.Leads ['('] d) : Opens c :=
  ⟨.paren, '(', d.after, h.ahead, rfl⟩

theorem opens_of_brace {c : Cursor} (h : ['\x7b'] <+: c.after) : Opens c := by
  obtain ⟨xs, hxs⟩ := h
  exact ⟨.brace, '\x7b', xs, hxs.symm, rfl⟩

/-- Where a scope opens, its end is further on, or there is none. -/
theorem ends_closeScope {c : Cursor} (h : Opens c) :
    Ends AuditError.IsScan (c < ·) (closeScope c) := by
  obtain ⟨before, _⟩ := c
  obtain ⟨d, x, xs, rfl, hd⟩ := h
  simp only [closeScope, hd]
  cases hstop : d.closeFrom 0 (x :: before) xs with
  | none => exact ⟨_, rfl⟩
  | some stop => exact (lt_cons before x xs).trans (Markup.lt_of_closeScope hstop)

/-- Any other place is a bad call. -/
theorem closeScope_refuses_iff {c : Cursor} :
    (∃ fault, closeScope c = .error (.invalidArgument fault)) ↔ ¬ Opens c := by
  constructor
  · rintro ⟨fault, hrefused⟩ hopens
    have hends := ends_closeScope hopens
    rw [hrefused] at hends
    obtain ⟨cause, hcause⟩ := hends
    cases hcause
  · intro hno
    unfold closeScope
    split
    · exact ⟨_, rfl⟩
    · next x xs hahead =>
      cases hd : Delimiter.ofOpener? x with
      | none => exact ⟨_, rfl⟩
      | some d => exact absurd ⟨d, x, xs, hahead, hd⟩ hno

/-! ### Places in a script -/

/-- The places at which the end of a scope is asked for in a script: the
brackets around the parameters of a function, the brace behind them, and the
brackets around the arguments of a route. -/
inductive AsksScope (t : Text) : Cursor → Prop
  | parameters {header : Match} (h : header ∈ Catalog.functionHeader.matchesIn t) :
      AsksScope t header.stop.prev
  | body {header : Match} (h : header ∈ Catalog.functionHeader.matchesIn t) {params brace : Cursor}
      (hparams : closeScope header.stop.prev = .ok params)
      (hbrace : Text.findFrom ['\x7b'] params.before params.after = some brace) : AsksScope t brace
  | arguments {m : Match} (h : m ∈ Catalog.routeRegistration.matchesIn t) :
      AsksScope t (match m.group? 1 with
        | some (_, verbEnd) => verbEnd
        | none => m.stop)

/-- The head of a function ends with a bracket. -/
theorem exists_paren_of_header {t : Text} {header : Match}
    (h : header ∈ Catalog.functionHeader.matchesIn t) :
    ∃ paren, header.start ≤ paren ∧ paren.Leads ['('] header.stop := by
  -- both ways of writing a function put the bracket last
  rcases matches_alt.1 (matches_of_mem_matchesIn h) with h | h
  all_goals
    obtain ⟨paren, hhead, hparen⟩ := matches_seq.1 h
    exact ⟨paren, le_of_matches hhead, matches_literal.1 hparen⟩

/-- The verb of a route is captured, and a bracket follows. -/
theorem exists_paren_of_route {t : Text} {m : Match}
    (h : m ∈ Catalog.routeRegistration.matchesIn t) :
    ∃ verb paren d, m.group? 1 = some (verb, paren) ∧ paren.Leads ['('] d := by
  have hverb := captures_capture (i := 1)
    (r := choice (["get", "post", "use", "prepend", "append", "replace", "extend"].map lit)) rfl
  -- from the verb outwards; the bracket is the first thing behind it
  have hroute := hverb.seq_right (lit "server.") |>.seq_left (s := lit "(") rfl
    |>.seq_left (s := run .notWord) rfl |>.seq_left (s := Catalog.quote) rfl
    |>.seq_left (s := .capture 2 (run1 .word)) rfl
  obtain ⟨verb, paren, hgroup, _, ⟨_, ⟨d, ⟨_, ⟨-, rfl⟩, hparen⟩, -⟩, -⟩, -⟩ :=
    hroute.exists_group? h
  exact ⟨verb, _, _, hgroup, matches_literal.1 hparen⟩

/-- **The end of a scope is asked for only where one opens.** -/
theorem opens_of_asksScope {t : Text} {c : Cursor} (h : AsksScope t c) : Opens c := by
  cases h with
  | parameters h =>
    obtain ⟨paren, -, hparen⟩ := exists_paren_of_header h
    rw [hparen.prev_eq]
    exact opens_of_leads_paren hparen
  | body h hparams hbrace => exact opens_of_brace (Text.prefix_of_findFrom hbrace).2
  | arguments h =>
    obtain ⟨verb, paren, d, hgroup, hparen⟩ := exists_paren_of_route h
    rw [hgroup]
    exact opens_of_leads_paren hparen

/-! ### Functions and routes -/

theorem trim_ne_nil {t : Text} {x : Char} (hx : x ∈ t) (hblank : Text.isBlank x = false) :
    Text.trim t ≠ [] := by
  intro hnil
  have hall : ∀ y ∈ t.dropWhile Text.isBlank, Text.isBlank y = true := by
    have hrest := List.dropWhile_eq_nil_iff.1 (List.reverse_eq_nil_iff.1 hnil)
    intro y hy
    exact hrest y (List.mem_reverse.2 hy)
  rw [← List.takeWhile_append_dropWhile (p := Text.isBlank) (l := t), List.mem_append] at hx
  rcases hx with hx | hx
  · rw [List.mem_takeWhile_imp hx] at hblank
    cases hblank
  · rw [hall x hx] at hblank
    cases hblank

/-- A function whose head was matched has a head to show, or a scope of it does
not end. -/
theorem ends_ofHeader {t : Text} {header : Match}
    (h : header ∈ Catalog.functionHeader.matchesIn t) (name : Text) :
    Ends AuditError.IsScan (fun f => Text.trim f.head ≠ []) (Function.ofHeader header name) := by
  obtain ⟨paren, hstart, hparen⟩ := exists_paren_of_header h
  have hparams := ends_closeScope (opens_of_asksScope (.parameters h))
  unfold Function.ofHeader
  cases hclosed : closeScope header.stop.prev with
  | error e =>
    rw [hclosed] at hparams
    exact hparams
  | ok params =>
    rw [hclosed, hparen.prev_eq] at hparams
    dsimp only [bind, Except.bind]
    cases hbrace : Text.findFrom ['\x7b'] params.before params.after with
    | none => exact ⟨_, rfl⟩
    | some brace =>
      apply (ends_closeScope (opens_of_asksScope (.body h hclosed hbrace))).bind
      intro stop _
      -- the head reaches over the bracket, which is not blank
      have hlt : paren < brace := hparams.trans_le (Text.prefix_of_findFrom hbrace).1
      have hrest := leads_upTo hlt.le
      obtain ⟨x, xs, hx⟩ := List.exists_cons_of_ne_nil (hrest.lt_iff.1 hlt)
      have hahead : '(' :: header.stop.after = x :: xs ++ brace.after := by
        rw [← hx, ← hrest.ahead, hparen.ahead]
        rfl
      have hmem : '(' ∈ header.start.upTo brace := by
        rw [((leads_upTo hstart).trans hrest).upTo_eq, hx, (List.cons.inj hahead).1]
        exact List.mem_append_right _ List.mem_cons_self
      exact trim_ne_nil hmem (by decide)

theorem ends_functions (t : Text) :
    Ends AuditError.IsScan (fun fs => ∀ f ∈ fs, Text.trim f.head ≠ []) (functions t) := by
  apply ends_mapM
  intro header h
  exact ends_ofHeader h _

theorem ends_endpoints (t : Text) : Ends AuditError.IsScan (fun _ => True) (endpoints t) := by
  have hall : Ends AuditError.IsScan (fun es => ∀ e ∈ es, True) (endpoints t) := by
    apply ends_mapM
    intro m h
    apply (ends_closeScope (opens_of_asksScope (.arguments h))).bind
    intro stop _
    exact trivial
  exact hall.failure

end Script

/-! ### Expressions in templates -/

namespace Markup

open StateTransition

/-- A lexer that is in an expression stands where a scope opens. -/
def Lexer.AtScope (l : Lexer) : Prop :=
  l.state = .expression → ∃ c : Cursor, c.text = l.source ∧ c.offset = l.cursor ∧ Script.Opens c

theorem Lexer.atScope_of_state_ne {l : Lexer} (h : l.state ≠ .expression) : l.AtScope :=
  fun hstate => absurd hstate h

theorem Lexer.enterTag_state_ne (l : Lexer) (name : Nat) :
    (l.enterTag name).state ≠ .expression := by
  unfold enterTag
  dsimp only
  split
  · simp
  · split <;> simp

/-- The lexer that a turn goes on with, if it does, is of one kind. -/
def Turn.GoesOn (P : Lexer → Prop) : Turn → Prop
  | .again l | .yields _ l => P l
  | .ends | .fails _ | .stuck _ => True

/-- An expression is entered from inside a tag, at a brace. -/
theorem Lexer.atScope_tagTurn {l : Lexer} (hl : l.state = .tag) {b : UInt8}
    (hb : l.source.byteAt? l.cursor = some b) : (l.tagTurn b).GoesOn AtScope := by
  have htag : l.state ≠ .expression := by simp [hl]
  unfold tagTurn
  split
  · split
    · trivial
    · exact atScope_of_state_ne (by simp)
    · exact atScope_of_state_ne htag
  · split
    · exact atScope_of_state_ne htag
    · split
      · next hbrace =>
        intro _
        rw [hbrace] at hb
        obtain ⟨c, htext, hoffset, hhead⟩ := (Text.byteAt?_eq_ascii_iff_cursor (by decide)).1 hb
        obtain ⟨rest, hahead⟩ := List.head?_eq_some_iff.1 hhead
        exact ⟨c, htext, hoffset, Script.opens_of_brace ⟨rest, hahead.symm⟩⟩
      · exact atScope_of_state_ne htag

/-- No turn leaves a lexer in an expression that does not begin with a brace. -/
theorem Lexer.atScope_turn (l : Lexer) : l.turn.GoesOn AtScope := by
  cases hstate : l.state with
  | text =>
    simp only [turn, hstate]
    split
    · split
      · trivial
      · exact atScope_of_state_ne (by simp)
    · split
      · trivial
      · exact atScope_of_state_ne (enterTag_state_ne l _)
  | tag =>
    simp only [turn, hstate]
    split
    · trivial
    · next b hb => exact atScope_tagTurn hstate hb
  | expression | comment | ignoredBody =>
    simp only [turn, hstate]
    split
    · trivial
    · exact atScope_of_state_ne (by simp)

/-- **A lexer asks for the end of an expression only where one opens.** -/
theorem Lexer.atScope_of_reaches {l m : Lexer} (hl : l.AtScope) (h : Reaches Lexer.step l m) :
    m.AtScope := by
  induction h with
  | refl => exact hl
  | @tail k m _ hstep _ =>
    have hturn := k.atScope_turn
    unfold step at hstep
    split at hstep
    · next heq =>
      rw [heq] at hturn
      exact Option.some.inj hstep ▸ hturn
    · next heq =>
      rw [heq] at hturn
      exact Option.some.inj hstep ▸ hturn
    · -- a lexer that fails is halted, in no expression
      obtain rfl := Option.some.inj hstep
      exact atScope_of_state_ne (by simp [halted])
    · cases hstep
    · cases hstep

end Markup

end CartridgeAudit
