/-
CartridgeAudit/Rule/ClientSide.lean

Rules on what the browser gets: web addresses in scripts, and sizes in pixels
and overrides of the cascade in style sheets.
-/
import CartridgeAudit.Pattern.Catalog
import CartridgeAudit.Rule.Basic
import CartridgeAudit.Rule.Selection
import CartridgeAudit.Text.Number

namespace CartridgeAudit.Rule

open Pattern

/-! ### Web addresses -/

/-- The lines with a web address that does not stand in a comment. -/
def uncommentedUrls (t : Text) : Except AuditError (List Violation) :=
  Catalog.hardcodedUrl.violationsWhere (fun m => !Catalog.commentedUrl.isMatch m.text) t

/-- Scripts in the browser hold no web addresses. -/
def noHardcodedUrls : Rule where
  code := "CL008"
  name := "no-hardcoded-urls"
  description := "Client-side JS should not contain hardcoded URLs"
  severity := .error
  query := Selection.clientScripts
  check := onText uncommentedUrls

/-! ### Sizes in pixels -/

/-- The largest size in pixels that is allowed if nothing is set. -/
def standardMaxPx : Nat := 5

/-- The largest size that the settings of the rule allow; what is no word of 32
bits counts as not set. -/
def maxPxOf (settings : Option RuleSettings) : Nat :=
  match settings with
  | none => standardMaxPx
  | some r =>
      let n := r.int "max_px" standardMaxPx
      if 0 ≤ n && n < Text.wordLimit then n.toNat else standardMaxPx

/-- The sizes in pixels above a limit. -/
def sizesAbove (maxPx : Nat) (t : Text) : Except AuditError (List Violation) :=
  Catalog.sizeInPx.violationsWhere (fun m => (Text.word? (m.groupText 1)).any (maxPx < ·)) t

/-- Sizes above a limit are relative. -/
def noPxSizes (maxPx : Nat) : Rule where
  code := "CL009"
  name := "no-px-sizes"
  description := "em or rems should be used instead of px"
  severity := .warning
  query := Selection.styles
  check := onText (sizesAbove maxPx)

/-! ### Overrides of the cascade -/

/-- The lines with an override of the cascade. -/
def overrides (t : Text) : Except AuditError (List Violation) := Catalog.important.violations t

/-- Style sheets do not override the cascade. -/
def noImportant : Rule where
  code := "CL010"
  name := "no-important"
  description := "!important should be avoided"
  severity := .warning
  query := Selection.styles
  check := onText overrides

end CartridgeAudit.Rule
