/-
CartridgeAudit/Config/Settings.lean

The configuration of an audit.

It is read from a TOML table.  Keys that are not known are passed over, except
in the table of a rule, where they are options of that rule.  A value of the
wrong kind makes the whole configuration malformed.  A table with a fixed set
of keys may also be given as the list of its values.

Date-times have a second form, a table with the single key `datetimeKey` and
the text as its value.  Where a table is wanted, a date-time stands for that
table (`tableOf?`); and among the options of a rule, such a table stands for
the date-time (`option?`).
-/
import CartridgeAudit.Data.Toml.Reader
import CartridgeAudit.Report.Severity
import CartridgeAudit.Text.Blank

namespace CartridgeAudit

/-- Where the project lives and which versions it claims. -/
structure ProjectSettings where
  root : String
  cartridgeVersion : Option String
  platformVersion : Option String
  compatibilityMode : Option String
  sfraVersion : Option String
  sitegenVersion : Option String
  /-- whether cartridges with changes to the reference storefront are left out -/
  excludeChanges : Bool
  deriving DecidableEq

/-- What the configuration says about a rule. -/
structure RuleSettings where
  enabled : Option Bool
  severity : Option Severity
  options : List (String × Toml)

/-- The configuration. -/
structure Settings where
  preset : Option String
  failOn : Option String
  project : ProjectSettings
  /-- name patterns of files and directories to leave out -/
  exclude : List String
  rules : List (String × RuleSettings)

/-! ### Options of a rule -/

namespace RuleSettings

/-- A boolean option. -/
def bool (r : RuleSettings) (key : String) (default : Bool) : Bool :=
  match r.options.lookup key with
  | some (.boolean b) => b
  | _ => default

/-- An integer option. -/
def int (r : RuleSettings) (key : String) (default : Int) : Int :=
  match r.options.lookup key with
  | some (.integer n) => n
  | _ => default

/-- A string option. -/
def string? (r : RuleSettings) (key : String) : Option String :=
  match r.options.lookup key with
  | some (.string s) => some s
  | _ => none

/-- An option with a list of strings; what is no string is passed over. -/
def strings (r : RuleSettings) (key : String) : List String :=
  match r.options.lookup key with
  | some (.array items) => items.filterMap fun
      | .string s => some s
      | _ => none
  | _ => []

end RuleSettings

/-! ### The configuration -/

namespace Settings

/-- The project in the current directory, without versions. -/
def standardProject : ProjectSettings := ⟨".", none, none, none, none, none, true⟩

/-- The configuration when there is none. -/
def standard : Settings := ⟨none, none, standardProject, [], []⟩

/-- What is said about a rule. -/
def rule? (s : Settings) (name : String) : Option RuleSettings := s.rules.lookup name

/-- Whether a rule is to run. -/
def isEnabled (s : Settings) (name : String) : Bool :=
  match s.rule? name with
  | some r => r.enabled.getD true
  | none => true

/-- The severity that is set for a rule. -/
def severity? (s : Settings) (name : String) : Option Severity := (s.rule? name).bind (·.severity)

/-- A setting that has to be there, without blanks around it. -/
def required (value : Option String) (key : String) : Except AuditError Text :=
  let text := Text.trim (value.getD "").toList
  if text.isEmpty then .error (.configuration (.settingMissing key)) else .ok text

/-! ### Reading it from a table -/

/-- The key under which a table holds the text of a date-time. -/
def datetimeKey : String := "$__toml_private_datetime"

/-- The entries of a table, and those of the table that a date-time stands for. -/
def tableOf? : Toml → Option (List (String × Toml))
  | .table es => some es
  | .datetime d => some [(datetimeKey, .string (String.ofList d.text))]
  | _ => none

/-- The entries of a table; a list gives the values of the known keys in their
order. -/
def entries? (keys : List String) : Option Toml → Option (List (String × Toml))
  | none => some []
  | some (.array items) => some (keys.zip items)
  | some v => tableOf? v

/-- A string, if the key is there. -/
def stringAt? (es : List (String × Toml)) (key : String) : Option (Option String) :=
  match es.lookup key with
  | none => some none
  | some (.string s) => some (some s)
  | some _ => none

/-- A boolean, if the key is there. -/
def boolAt? (es : List (String × Toml)) (key : String) : Option (Option Bool) :=
  match es.lookup key with
  | none => some none
  | some (.boolean b) => some (some b)
  | some _ => none

/-- A severity: its name, alone or as the only key of a table with nothing in
it. -/
def severityOf? : Toml → Option Severity
  | .string name => Severity.ofName? name
  | .table [(name, .table [])] | .table [(name, .array [])] => Severity.ofName? name
  | _ => none

/-- The keys about the project. -/
def projectKeys : List String :=
  ["root", "cartridge_version", "platform_version", "compatibility_mode", "sfra_version",
   "sitegen_version", "exclude_changes_cartridges"]

/-- What is said about the project. -/
def project? (v : Option Toml) : Option ProjectSettings := do
  let es ← entries? projectKeys v
  return {
    root := (← stringAt? es "root").getD "."
    cartridgeVersion := ← stringAt? es "cartridge_version"
    platformVersion := ← stringAt? es "platform_version"
    compatibilityMode := ← stringAt? es "compatibility_mode"
    sfraVersion := ← stringAt? es "sfra_version"
    sitegenVersion := ← stringAt? es "sitegen_version"
    excludeChanges := (← boolAt? es "exclude_changes_cartridges").getD true }

/-- The name patterns to leave out. -/
def exclude? (v : Option Toml) : Option (List String) := do
  match (← entries? ["exclude"] v).lookup "exclude" with
  | none => some []
  | some (.array items) => items.mapM fun
      | .string s => some s
      | _ => none
  | some _ => none

mutual

/-- An option of a rule. A table that begins with the key of date-times stands
for a date-time, and has to be the form of one. -/
def option? : Toml → Option Toml
  | .table ((key, v) :: es) =>
      if key = datetimeKey then
        match v, es with
        | .string s, [] => (Datetime.ofText? s.toList).map .datetime
        | _, _ => none
      else do return .table ((key, ← option? v) :: (← optionEntries? es))
  | .table [] => some (.table [])
  | .array items => (optionItems? items).map .array
  | .string s => some (.string s)
  | .integer n => some (.integer n)
  | .float => some .float
  | .boolean b => some (.boolean b)
  | .datetime d => some (.datetime d)

/-- The entries of a table among the options. -/
def optionEntries? : List (String × Toml) → Option (List (String × Toml))
  | [] => some []
  | (key, v) :: es => do return (key, ← option? v) :: (← optionEntries? es)

/-- The items of a list among the options. -/
def optionItems? : List Toml → Option (List Toml)
  | [] => some []
  | v :: vs => do return (← option? v) :: (← optionItems? vs)

end

/-- What is said about a rule. -/
def ruleOf? (v : Toml) : Option RuleSettings := do
  let es ← tableOf? v
  let severity ← match es.lookup "severity" with
    | none => some none
    | some v => (severityOf? v).map some
  let options ← optionEntries? (es.filter fun e => e.1 != "enabled" && e.1 != "severity")
  return ⟨← boolAt? es "enabled", severity, options⟩

/-- What is said about the rules. -/
def rules? : Option Toml → Option (List (String × RuleSettings))
  | none => some []
  | some (.table es) => es.mapM fun (name, v) => (ruleOf? v).map fun r => (name, r)
  | some _ => none

/-- The configuration that a table holds. -/
def ofToml? (t : Toml) : Option Settings :=
  match t with
  | .table es => do
      return ⟨← stringAt? es "preset", ← stringAt? es "fail_on", ← project? (es.lookup "project"),
        ← exclude? (es.lookup "analyzer"), ← rules? (es.lookup "rules")⟩
  | _ => none

/-- The configuration that a text denotes. -/
def parse (t : Text) : Except ConfigError Settings :=
  match Toml.parse? t with
  | none => .error (.malformed "not a TOML document")
  | some v =>
      match ofToml? v with
      | none => .error (.malformed "a value has the wrong type")
      | some s => .ok s

end Settings

end CartridgeAudit
