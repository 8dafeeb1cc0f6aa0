/-
CartridgeAudit/Rule/Templates.lean

Rules on templates: literal text, output without encoding, and inline styles.
-/
import CartridgeAudit.Markup.Finding
import CartridgeAudit.Rule.Basic
import CartridgeAudit.Rule.Selection

namespace CartridgeAudit.Rule

open Pattern

/-- The text of templates comes from resource files. -/
def noHardcodedStrings : Rule where
  code := "CL011"
  name := "no-hardcoded-template-strings"
  description := "Hardcoded strings should be in a .properties file"
  severity := .error
  query := Selection.templates
  check := onText Markup.hardcodedStrings

/-- The output tags that switch encoding off. -/
def unencodedOutput (t : Text) : Except AuditError (List Violation) := do
  return (← Markup.outputTags t).filter fun v => Catalog.encodingOff.isMatch v.text

/-- Templates encode what they print. -/
def noUnencodedOutput : Rule where
  code := "CL012"
  name := "no-unencoded-isprint"
  description := "Templates should not print values with encoding turned off"
  severity := .error
  query := Selection.templates
  check := onText unencodedOutput

/-- Styles stand in style sheets. -/
def noInlineStyles : Rule where
  code := "CL013"
  name := "no-inline-styles"
  description := "Inline styles should be moved to stylesheets"
  severity := .warning
  query := Selection.templates
  check := onText Markup.inlineStyleTags

end CartridgeAudit.Rule
