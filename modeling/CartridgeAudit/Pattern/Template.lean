/-
CartridgeAudit/Pattern/Template.lean

Expressions with slots for names.

Some patterns depend on names that are known only while a file is read
(variables, class aliases) or on configured versions.  A template is the
written form of an expression with slots such as `{vars}`; filling a slot puts
an alternation of the escaped names in its place.  Without names a slot is
filled with an expression that matches nothing, unless the template puts a
suffix behind its names, in which case the slot vanishes.

There is no limit on the size of a filled expression here.  The engine that runs
these expressions sets one, and refuses with the same error an expression that
outgrows it, which takes more names than a file of ordinary length has.
-/
import CartridgeAudit.Error
import CartridgeAudit.Pattern.Match
import CartridgeAudit.Pattern.Source

namespace CartridgeAudit.Pattern

/-- A written expression with slots. -/
structure Template where
  name : String
  source : Text
  /-- put behind the names that fill a slot -/
  suffix : Text
  deriving DecidableEq

namespace Template

/-- The slot for identifiers. -/
def vars : Text := "{vars}".toList

/-- The slot for method names. -/
def methods : Text := "{methods}".toList

/-- The written form of an expression that matches nothing. -/
def never : Text := "[^\\s\\S]".toList

/-- The written form of a choice between fixed texts. -/
def alternation (names : List Text) : Text := Text.join ['|'] (names.map escape)

/-- What fills a slot. -/
def injection (t : Template) (names : List Text) : Text :=
  if names.isEmpty then if t.suffix.isEmpty then never else []
  else alternation names ++ t.suffix

/-- The written form once the slots are filled, one after the other. -/
def filled (t : Template) (slots : List (Text × List Text)) : Text :=
  slots.foldl (fun source slot => Text.replaceAll slot.1 (t.injection slot.2) source) t.source

/-- The expression once the slots are filled; there is none while a slot is
left open. -/
def build? (t : Template) (slots : List (Text × List Text)) : Option Regex :=
  Regex.ofSource? (t.filled slots)

/-- The expression once the slots are filled, which it has to be. -/
def build (t : Template) (slots : List (Text × List Text)) : Except AuditError Regex :=
  match t.build? slots with
  | some r => .ok r
  | none => .error (.pattern t.name)

/-! ### The templates -/

/-- A template without suffix. -/
def plain (name source : String) : Template := ⟨name, source.toList, []⟩

/-- A line that reaches custom attributes of the session or of an alias of it. -/
def sessionCustom : Template :=
  ⟨"session-custom",
    ("(?m)^.*?(?:\\b(?:{vars}session)|request\\.getSession\\(\\))" ++
      "\\.(?:custom\\W|getCustom\\(\\)).*?$").toList,
    ['|']⟩

/-- A call of `close` on one of the names. -/
def closedVariable : Template := plain "closed-variable" "\\b({vars})\\.close\\(\\)"

/-- The result of one of the methods, called on one of the names, put into a
variable. -/
def methodCallSaved : Template :=
  plain "method-call-saved-to-var" "(\\w+)\\s?=\\s?.*(?:{vars})\\.(?:{methods})\\b"

/-- A variable bound to an expression that ends in the class name. -/
def classVariable : Template := plain "dw-class-variable" "(\\w+)\\s?=\\s?.*(?:{vars})"

/-- The class used directly, followed by a dot. -/
def classDirect : Template := plain "dw-class-direct" "((?:{vars})(?:[\"']\\))?)\\."

/-- A configured storefront architecture version. -/
def sfraVersion : Template := plain "sfra-version" "sfra\\D*(?:{vars})"

/-- A configured platform version. -/
def platformVersion : Template :=
  plain "platform-version" "(?:sfcc|salesforce|api|platform)\\D*(?:{vars})"

/-- A configured SiteGenesis version. -/
def sitegenVersion : Template :=
  plain "sitegen-version" "(?:sitegen|genes|sg)\\D\x7b0,25\x7d(?:{vars})"

/-- A configured compatibility mode. -/
def compatibilityMode : Template := plain "compatibility-mode" "compatibility\\D*(?:{vars})"

/-- The configured cartridge version, anywhere. -/
def cartridgeVersion : Template := plain "cartridge-version" "(?:{vars})"

/-- All templates. -/
def all : List Template :=
  [sessionCustom, closedVariable, methodCallSaved, classVariable, classDirect, sfraVersion,
   platformVersion, sitegenVersion, compatibilityMode, cartridgeVersion]

end Template

end CartridgeAudit.Pattern
