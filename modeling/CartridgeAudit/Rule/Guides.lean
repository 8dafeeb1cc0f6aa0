/-
CartridgeAudit/Rule/Guides.lean

Rules on the documentation.

The rules on guides audit one guide after the other.  A guide in which a part
cannot be found is reported with that defect as its only issue; it never ends
the audit.
-/
import CartridgeAudit.Pattern.Template
import CartridgeAudit.Rule.Versions

namespace CartridgeAudit.ProjectRule

open Pattern

/-! ### Audits of guides -/

/-- The issues of a guide; a guide that cannot be checked has its defect as the
only one. -/
def guideIssues (check : Document → Except DocumentError (List Text)) (d : Document) : List Text :=
  match check d with
  | .ok issues => issues
  | .error e => [e.message.toList]

/-- Audits guides, one after the other. -/
def auditGuides (check : Document → Except DocumentError (List Text)) (s : Session)
    (guides : List Document) : Except AuditError Session :=
  guides.foldlM (fun s d =>
      auditFile s (.ofText d.path d.content) ((guideIssues check d).map fun issue => (issue, 0)))
    s

/-- What was found in the place of an expected version. -/
def alternative (any : Regex) (t : Text) : Text :=
  match any.find? t with
  | some m => " Instead was found: ".toList ++ m.text
  | none => []

/-- The name of a guide in quotation marks, with a full stop. -/
def quotedName (d : Document) : Text := ("'" ++ d.name ++ "'.").toList

/-! ### Title pages -/

/-- Guides name the cartridge version on their title page. -/
def guideTitleVersion : ProjectRule where
  code := "CL102"
  name := "guide-title-version"
  description := "Valid cartridge version number should be on a title page of the guide"
  severity := .error
  needsDocuments := true
  check := fun v s => do
    let version ← Audit.ofExcept (configuredVersion v.settings)
    let pattern ← Audit.ofExcept (Template.cartridgeVersion.build [(Template.vars, [version])])
    let guides ← Document.guides (← Audit.ofExcept v.documents) none
    Audit.ofExcept <| auditGuides
      (fun d => do
        let page ← Document.firstPage d.content
        if pattern.isMatch page then return []
        return ["cartridge version ".toList ++ version ++ " wasn't found in guide ".toList ++
          quotedName d ++ alternative Catalog.anyCartridgeVersion page])
      s guides

/-- Guides of the storefront architecture name its version on their title page. -/
def guideSfraVersion : ProjectRule where
  code := "CL103"
  name := "guide-sfra-version"
  description := "SFRA version number should be on a title page of the guide"
  severity := .error
  needsDocuments := true
  check := fun v s => do
    if !v.hasGeneration .sfra then return s
    let version ← Audit.ofExcept
      (Settings.required v.settings.project.sfraVersion "sfra_version")
    let pattern ← Audit.ofExcept (Template.sfraVersion.build [(Template.vars, [version])])
    let guides ← Document.guides (← Audit.ofExcept v.documents) (some .sfra)
    Audit.ofExcept <| auditGuides
      (fun d => do
        let page ← Document.firstPage d.content
        if pattern.isMatch page then return []
        return ["sfra ".toList ++ version ++ " mentioning was not found on title page of ".toList ++
          quotedName d ++ alternative Catalog.anySfraVersion page])
      s guides

/-! ### The compatibility section -/

/-- Whether a document covers cartridges of a generation. -/
def coversGeneration (d : Document) (g : Generation) : Bool := d.coverage.any (·.covers g)

/-- A version that the compatibility section of guides has to name. -/
structure Requirement where
  label : String
  version : Text
  /-- the configured version with its keyword -/
  pattern : Regex
  /-- any version with that keyword -/
  any : Regex
  /-- a guide has to cover this generation for the requirement to apply -/
  onlyFor : Option Generation

namespace Requirement

/-- A requirement, whose version has to be configured. -/
def ofSetting (label : String) (template : Template) (any : Regex) (onlyFor : Option Generation)
    (value : Option String) (key : String) : Except AuditError Requirement := do
  let version ← Settings.required value key
  return ⟨label, version, ← template.build [(Template.vars, [version])], any, onlyFor⟩

/-- Whether a requirement applies to a guide. -/
def appliesTo (r : Requirement) (d : Document) : Bool :=
  match r.onlyFor with
  | none => true
  | some g => coversGeneration d g

/-- The issue of a guide whose section does not meet a requirement. -/
def issue (r : Requirement) (d : Document) (body : Text) : Text :=
  (r.label ++ " ").toList ++ r.version ++
    " mentioning was not found in compatibility section of ".toList ++ quotedName d ++
    alternative r.any body

end Requirement

/-- A requirement for guides that cover a generation, if there are any. -/
def Requirement.ifCovered (guides : List Document) (g : Generation)
    (make : Option Generation → Except AuditError Requirement) :
    Except AuditError (List Requirement) :=
  if guides.any (coversGeneration · g) then do return [← make (some g)] else .ok []

/-- The requirements on guides. Versions of a storefront generation are asked
for only if some guide covers it. -/
def compatibilityRequirements (p : ProjectSettings) (guides : List Document) :
    Except AuditError (List Requirement) := do
  let platform ← Requirement.ofSetting "platform version" Template.platformVersion
    Catalog.anyPlatformVersion none p.platformVersion "platform_version"
  let mode ← Requirement.ofSetting "compatibility mode" Template.compatibilityMode
    Catalog.anyCompatibilityMode none p.compatibilityMode "compatibility_mode"
  let sfra ← Requirement.ifCovered guides .sfra fun onlyFor =>
    Requirement.ofSetting "sfra" Template.sfraVersion Catalog.anySfraVersion onlyFor p.sfraVersion
      "sfra_version"
  let sitegen ← Requirement.ifCovered guides .controllers fun onlyFor =>
    Requirement.ofSetting "SiteGen version" Template.sitegenVersion
      Catalog.anySitegenVersion onlyFor p.sitegenVersion "sitegen_version"
  return platform :: mode :: sfra ++ sitegen

/-- The compatibility section of guides names the supported versions. -/
def guideCompatibility : ProjectRule where
  code := "CL104"
  name := "guide-compatibility"
  description := "Compatibility section should name the supported platform, compatibility mode " ++
    "and storefront versions"
  severity := .error
  needsDocuments := true
  check := fun v s => do
    let guides ← Document.guides (← Audit.ofExcept v.documents) none
    let requirements ← Audit.ofExcept (compatibilityRequirements v.settings.project guides)
    Audit.ofExcept <| auditGuides
      (fun d => do
        let body ← Document.sectionNamed d.content "compatibility".toList
        return (requirements.filter fun r => r.appliesTo d && !r.pattern.isMatch body).map
          fun r => r.issue d body)
      s guides

/-! ### The availability section -/

/-- The length that the availability section has to exceed if nothing is set. -/
def standardMinLength : Nat := 100

/-- The length that the settings of the rule give; what is not positive counts
as not set. -/
def minLengthOf (settings : Option RuleSettings) : Nat :=
  match settings with
  | none => standardMinLength
  | some r =>
      let n := r.int "min_length" 0
      if 0 < n then n.toNat else standardMinLength

/-- Guides explain at some length what happens when the service is down. -/
def guideAvailability (minLength : Nat) : ProjectRule where
  code := "CL105"
  name := "guide-availability"
  description := "Availability section should describe what merchants should expect when the " ++
    "partner's service is down"
  severity := .error
  needsDocuments := true
  check := fun v s => do
    let guides ← Document.guides (← Audit.ofExcept v.documents) none
    Audit.ofExcept <| auditGuides
      (fun d => do
        let body ← Document.sectionNamed d.content "availability".toList
        if minLength < body.length then return []
        return [(s!"provide an explanation of at least {minLength} symbols" ++
            " of the situation when the service is down in ").toList ++ quotedName d ++
          " Current content: ".toList ++ body])
      s guides

/-! ### The overview -/

/-- There is a document with an overview. -/
def overviewDocument : ProjectRule where
  code := "CL106"
  name := "overview-document"
  description := "Cartridge overview how to quickly ensure that cartridge is installed and " ++
    "working properly should be provided as separate doc"
  severity := .error
  needsDocuments := true
  check := fun v s => Audit.ofExcept do
    let documents ← v.documents
    let names := documents.map (·.name)
    let issues := if documents.any (·.kind == .overview) then []
      else [(("no cartridge overview/validation was found among files: " ++
        ", ".intercalate names).toList, 0)]
    auditFile s (.ofText (v.corpus.root.join ⟨Document.documentationDir⟩)
      ("\n".intercalate names).toList) issues

end CartridgeAudit.ProjectRule
