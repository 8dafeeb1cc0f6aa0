/-
CartridgeAudit/Rule/Jobs.lean

The rule on job metadata: jobs run for the expected site, and their steps are
not scripts in the old format.
-/
import CartridgeAudit.Pattern.Catalog
import CartridgeAudit.Rule.Basic

namespace CartridgeAudit.Rule

open Pattern

/-- The site that jobs run for if nothing is set. -/
def standardSite : String := "RefArch"

/-- The site that the settings of the rule name. -/
def siteOf (settings : Option RuleSettings) : String :=
  (settings.bind (·.string? "site_id")).getD standardSite

/-- The sites other than the expected one. -/
def foreignSites (site : String) (t : Text) : Except AuditError (List Violation) :=
  Catalog.jobSiteId.violationsWhere (fun m => m.groupText 1 != site.toList) t

/-- The module paths that end like scripts in the old format. -/
def oldModules (t : Text) : Except AuditError (List Violation) :=
  ((Catalog.jobModulePath.matchesIn t).filterMap fun m =>
      (m.group? 1).bind fun (start, stop) =>
        if Text.endsWith (start.upTo stop) ".ds".toList then some (start, stop) else none).mapM
    fun (start, stop) => Violation.new (start.upTo stop) start.offset

/-- Both kinds of violations, by their offsets. -/
def jobViolations (site : String) (t : Text) : Except AuditError (List Violation) := do
  return ((← foreignSites site t) ++ (← oldModules t)).mergeSort fun a b => a.offset ≤ b.offset

/-- Jobs run for the expected site and not with scripts in the old format. -/
def jobMetadata (site : String) : Rule where
  code := "CL019"
  name := "job-metadata"
  description := "Job metadata should target the default site and not refer to .ds files"
  severity := .error
  query := (FileQuery.below ".").withEndings "jobs.xml"
  check := onText (jobViolations site)

end CartridgeAudit.Rule
