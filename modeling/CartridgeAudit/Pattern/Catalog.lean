/-
CartridgeAudit/Pattern/Catalog.lean

The fixed patterns of the auditor, by what they are looked for in: scripts,
client-side files, templates, metadata, documentation and the manifest.
-/
import CartridgeAudit.Pattern.Match

namespace CartridgeAudit.Pattern.Catalog

open Regex

/-- A single or double quotation mark. -/
def quote : Regex := .single (.anyOf "'\"")

/-- A blank, or none. -/
def maybeBlank : Regex := maybe (.single .blank)

/-- A decimal digit. -/
def digit : Regex := .single .digit

/-! ### Scripts -/

/-- The head of a function, up to the bracket that opens its parameters:
declared by name (capture 1) or assigned to a name (capture 2). -/
def functionHeader : Regex :=
  (boundary ++ lit "function" ++ run1 .blank ++ .capture 1 (run1 .word) ++ run .blank ++ lit "(")
  ||| (.capture 2 (run1 .word) ++ run .blank ++ .single (.anyOf ":=") ++ run .blank ++
    lit "function" ++ boundary ++ run (.noneOf "(") ++ lit "(")

/-- The registration of a route: verb and name. -/
def routeRegistration : Regex :=
  lit "server." ++
    .capture 1
      (choice (["get", "post", "use", "prepend", "append", "replace", "extend"].map lit)) ++
    lit "(" ++ run .notWord ++ quote ++ .capture 2 (run1 .word)

/-- The registration of a route that replaces another: its name. -/
def replacedRoute : Regex :=
  lit "server.replace(" ++ run .notWord ++ quote ++ .capture 1 (run1 .word)

/-- The look-up of a controller by name. -/
def controllerCall : Regex :=
  lit "app.getController(" ++ quote ++ .capture 1 (run1 .word) ++ quote ++ lit ")"

/-- The head of a test case. -/
def testCase : Regex :=
  boundary ++ lit "it" ++ maybeBlank ++ lit "(" ++ run .notWord ++ quote

/-- A call of the parent constructor. -/
def superCall : Regex := lit "super.call("

/-- An import and the path it names. -/
def requirePath : Regex :=
  lit "require(" ++ run .blank ++ quote ++ .capture 1 (run1 (.noneOf "'\")")) ++ quote ++
    run .blank ++ lit ")"

/-- A note of unfinished work, to the end of its line. -/
def todo : Regex := lit "TODO" ++ restOfLine

/-- A variable bound to the session. -/
def sessionAlias : Regex :=
  boundary ++ .capture 1 (run1 .word) ++ maybeBlank ++ lit "=" ++ maybeBlank ++
    caseless "request" ++ lit "." ++ caseless "getSession" ++ lit "()" ++ .single (.noneOf ".")

/-- The letters of both cases, and further characters. -/
def lettersAnd (more : List ClassItem) : CharClass :=
  ⟨false, .range 'A' 'Z' :: .range 'a' 'z' :: more⟩

/-- A variable bound to a new reader or writer, with or without a type. -/
def readerWriterBinding : Regex :=
  boundary ++ .capture 1 (run1 .word) ++
    maybe (.capture 2
      (.single .blank ++ lit ":" ++ .single .blank ++ run1 (lettersAnd []))) ++
    maybeBlank ++ lit "=" ++ maybeBlank ++ lit "new" ++ .single .blank ++
    maybe (.capture 3 (run1 (lettersAnd [.one '.']))) ++
    .capture 4 (lit "Reader" ||| lit "Writer") ++ lit "("

/-- A line that names the service registry. -/
def serviceRegistry : Regex :=
  .assert .lineStart ++ restOfLine ++ caseless "dw" ++ .single (.anyOf "/.") ++ caseless "svc" ++
    .single (.anyOf "/.") ++ caseless "ServiceRegistry" ++ restOfLine ++ .assert .lineEnd

/-! ### Client side -/

/-- The beginning of a web address. -/
def urlStart : Regex := lit "http" ++ maybe (lit "s") ++ lit "://"

/-- A line, or the rest of one, with a web address. -/
def hardcodedUrl : Regex := restOfLine ++ urlStart ++ restOfLine

/-- A web address behind a comment opener. -/
def commentedUrl : Regex :=
  ((.assert .textStart ++ run .blank ++ lit "*") ||| (restOfLine ++ lit "//") |||
    (lit "/*" ++ maybe (lit "*"))) ++
    restOfLine ++ urlStart ++ restOfLine

/-- A size in pixels and the shortest way to it within the line. -/
def sizeInPx : Regex :=
  .many .inLine true ++ .capture 1 (between 1 5 digit) ++ lit "px"

/-- A line with an override of the cascade. -/
def important : Regex := restOfLine ++ lit "!important" ++ restOfLine

/-! ### Templates -/

/-- The beginning of a tag. -/
def tagStart : Regex := lit "<" ++ .single .notBlank

/-- A line that begins with literal text. -/
def hardcodedString : Regex :=
  .assert .lineStart ++ run .blank ++ .single ⟨true, [.one '$', .one '<', .blank]⟩ ++
    run (.noneOf "<")

/-- An attribute that switches encoding off. -/
def encodingOff : Regex :=
  lit "encoding" ++ maybeBlank ++ lit "=" ++ maybeBlank ++ quote ++ lit "off" ++ quote

/-! ### Metadata -/

/-- The site a job runs for. -/
def jobSiteId : Regex :=
  lit "site-id" ++ maybeBlank ++ lit "=" ++ maybeBlank ++ lit "\"" ++
    .capture 1 (run1 (.noneOf "\"")) ++ lit "\""

/-- The module path of a job step. -/
def jobModulePath : Regex :=
  lit "<parameter name=\"ExecuteScriptModule.Module\">" ++
    .capture 1 (run ⟨false, [.word, .one '/', .one '.']⟩) ++ lit "</parameter>"

/-! ### Documentation, in lower case and without blanks -/

/-- An entry of a table of contents, up to its page number. -/
def contentsEntry : Regex :=
  .capture 1 (.single ⟨true, [.range '0' '9', .blank, .one '.']⟩ ++ run1 .notDigit) ++ digit

/-- A chapter on custom code for controllers. -/
def customControllerChapter : Regex :=
  lit "customcode" ++ .single (.noneOf ")") ++ lit "controller" ++ .single (.noneOf ")")

/-- Any cartridge version. -/
def anyCartridgeVersion : Regex :=
  (lit "v" ||| lit "v." ||| lit "version") ++ run .notDigit ++
    .capture 1 (exactly 2 digit ++ lit "." ++ digit ++ lit "." ++ digit)

/-- Any storefront architecture version. -/
def anySfraVersion : Regex :=
  lit "sfra" ++ run .notDigit ++
    .capture 1 (digit ++ lit "." ++ digit ++ .single .inLine ++ digit)

/-- Any platform version. -/
def anyPlatformVersion : Regex :=
  choice (["sfcc", "salesforce", "api", "platform"].map lit) ++ run .notDigit ++
    .capture 1 (exactly 2 digit ++ lit "." ++ between 1 2 digit)

/-- Any SiteGenesis version. -/
def anySitegenVersion : Regex :=
  choice (["sitegen", "genes", "sg"].map lit) ++ between 0 25 (.single .notDigit) ++
    .capture 1 (exactly 3 digit ++ lit "." ++ between 1 2 digit ++ .single .inLine ++
      between 1 2 digit)

/-- Any compatibility mode. -/
def anyCompatibilityMode : Regex :=
  lit "compatibility" ++ run .notDigit ++
    .capture 1 (exactly 2 digit ++ lit "." ++ between 1 2 digit)

/-! ### The manifest -/

/-- The path at which the base cartridge of the storefront is expected. -/
def storefrontBasePath : Regex :=
  .assert .textStart ++
    lit "../storefront-reference-architecture/cartridges/app_storefront_base" ++
    maybe (lit "/") ++ .assert .textEnd

/-! ### File names -/

/-- Lower-case letters of the basic alphabet. -/
def lowerLetters : Regex := run1 ⟨false, [.range 'a' 'z']⟩

/-- A capitalized word of the basic alphabet. -/
def capitalized : Regex := run1 ⟨false, [.range 'A' 'Z']⟩ ++ lowerLetters

/-- One capitalized word or more, and an ending in lower case up to the end. -/
def capitalizedName : Regex :=
  capitalized ++ .star capitalized ++ lit "." ++ lowerLetters ++ .assert .textEnd

/-- A file name that begins in lower case and goes on with capitalized words. -/
def camelCaseName : Regex := .assert .textStart ++ lowerLetters ++ capitalizedName

/-- A file name of capitalized words. -/
def pascalCaseName : Regex := .assert .textStart ++ capitalizedName

end CartridgeAudit.Pattern.Catalog
