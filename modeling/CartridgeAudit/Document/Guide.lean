/-
CartridgeAudit/Document/Guide.lean

Documents: what kind they are, which generation a guide covers, and where its
parts are.

All searching works on the *normal form* of a text: lower case, without
blanks.  A guide consists of a first page, the header of its table of contents,
the table, and the main part.  The table is told from the main part by its
first entry: where the heading of that entry occurs again, the main part
begins.
-/
import CartridgeAudit.Error
import CartridgeAudit.Pattern.Catalog
import CartridgeAudit.Project.Generation
import CartridgeAudit.Project.Path

namespace CartridgeAudit.Document

open Pattern

/-- A text in lower case and without blanks. -/
def normalize (t : Text) : Text := (Text.lower t).filter (!Text.isBlank ·)

/-! ### The parts of a guide -/

/-- The headers that a table of contents may have; the first that occurs
counts. -/
def contentsHeaders : List Text := ["tableofcontents".toList, "contents".toList]

/-- The text before the header of the table of contents, and the text behind. -/
def splitAtHeader : List Text → Text → Option (Text × Text × Text)
  | [], _ => none
  | header :: headers, content =>
      match Text.find? header content with
      | some c => some (c.before.reverse, header, c.after.drop header.length)
      | none => splitAtHeader headers content

/-- The text before the table of contents. -/
def firstPage (content : Text) : Except DocumentError Text :=
  match splitAtHeader contentsHeaders content with
  | some (page, _, _) => .ok page
  | none => .error .missingContents

/-- The parts of a guide behind its first page. -/
structure Outline where
  /-- the table of contents, without its header -/
  contents : Text
  /-- everything from the first heading on -/
  main : Text
  deriving DecidableEq

/-- The parts of what stands behind the header of the table of contents. -/
def outlineOf (rest : Text) : Except DocumentError Outline :=
  match (Catalog.contentsEntry.find? rest).bind (·.group? 1) with
  | none => .error .emptyContents
  | some (start, stop) =>
      match Text.findFrom (start.upTo stop) stop.before stop.after with
      | none => .error (.missingHeading (start.upTo stop))
      | some body => .ok ⟨body.before.reverse, body.after⟩

/-- The parts of a guide. -/
def outline (content : Text) : Except DocumentError Outline :=
  match splitAtHeader contentsHeaders content with
  | some (_, _, rest) => outlineOf rest
  | none => .error .missingContents

/-- The table of contents, without its header. -/
def tableOfContents (content : Text) : Except DocumentError Text :=
  (outline content).map (·.contents)

/-- Everything from the first heading on. -/
def mainContent (content : Text) : Except DocumentError Text := (outline content).map (·.main)

/-! ### Sections -/

/-- The headings that a table of contents lists. -/
def headings (contents : Text) : List Text :=
  (Catalog.contentsEntry.matchesIn contents).map (·.groupText 1)

/-- A heading with its neighbours. -/
structure Listed where
  previous : Option Text
  current : Text
  next : Option Text
  deriving DecidableEq

/-- The first heading that holds a name, with its neighbours. -/
def listed (name : Text) : Option Text → List Text → Option Listed
  | _, [] => none
  | previous, h :: hs =>
      if Text.contains h name then some ⟨previous, h, hs.head?⟩ else listed name (some h) hs

/-- The text of a section: from behind its heading, which is looked for from
the heading before on, up to the next heading. -/
def sectionText (l : Listed) (main : Text) : Option Text :=
  let start := (l.previous.bind fun h => Text.find? h main).getD main.start
  match Text.findFrom l.current start.before start.after with
  | none => none
  | some c =>
      let body := c.after.drop l.current.length
      match l.next.bind fun h => Text.find? h body with
      | some e => some e.before.reverse
      | none => some body

/-- The section whose heading, one of those listed, holds a name. -/
def sectionAmong (parts : Outline) (listing : List Text) (name : Text) :
    Except DocumentError Text :=
  let name := Text.lower name
  match (listed name none listing).bind fun l => sectionText l parts.main with
  | some body => .ok body
  | none => .error (.missingSection name)

/-- The section whose heading holds a name. -/
def sectionNamed (content name : Text) : Except DocumentError Text := do
  let parts ← outline content
  sectionAmong parts (headings parts.contents) name

/-! ### Kinds of documents -/

/-- What a document is. -/
inductive Kind
  | guide
  | testCases
  | overview
  | unclassified
  deriving DecidableEq

/-- The name of a kind. -/
def Kind.name : Kind → String
  | .guide => "guide"
  | .testCases => "test cases"
  | .overview => "overview"
  | .unclassified => "unclassified"

/-- The kind of a document, by its lower-cased name and its normal form. -/
def Kind.classify (name : String) (content : Text) : Kind :=
  let has (part : String) : Bool := Text.contains content part.toList
  if occursIn "guide" name ||
      ((has "tableofcontent" || has "contents") && has "implementationguide") then .guide
  else if occursIn "test" name then .testCases
  else if occursIn "overview" name ||
      (Text.find? "validation".toList content).any (·.offset < 10) then .overview
  else .unclassified

/-- The generations a guide may cover. -/
inductive Coverage
  | sfra
  | controllers
  /-- both the storefront reference architecture and controllers -/
  | mixed
  | pipelines
  | unclassified
  deriving DecidableEq

/-- The name of a coverage. -/
def Coverage.name : Coverage → String
  | .sfra => "sfra"
  | .controllers => "controllers"
  | .mixed => "mixed"
  | .pipelines => "pipelines"
  | .unclassified => "unclassified"

/-- Whether a guide covers cartridges of a generation. -/
def Coverage.covers : Coverage → Generation → Bool
  | .sfra, .sfra | .mixed, .sfra => true
  | .controllers, .controllers | .mixed, .controllers => true
  | .pipelines, .pipelines => true
  | _, _ => false

/-- Whether there are cartridges of a generation and a text names them all. -/
def mentionsAll (cartridges : CartridgeSet) (g : Generation) (content : Text) : Bool :=
  let names := cartridges.names g
  !names.isEmpty && names.all fun n => Text.contains content n.toList

/-- What a guide covers, by its lower-cased name and its normal form. -/
def Coverage.classify (cartridges : CartridgeSet) (name : String) (content : Text) : Coverage :=
  let page := (firstPage content).toOption.getD []
  let sfra := occursIn "sfra" name || mentionsAll cartridges .sfra content ||
    Text.contains page "sfra".toList
  let controllers := occursIn "controllers" name || occursIn "sgjc" name ||
    mentionsAll cartridges .controllers content || Text.contains page "controller".toList ||
    (outline content).toOption.any fun o => Catalog.customControllerChapter.isMatch o.contents
  let pipelines := occursIn "pipelines" name || mentionsAll cartridges .pipelines content
  if sfra && controllers then .mixed
  else if sfra then .sfra
  else if controllers then .controllers
  else if pipelines then .pipelines
  else .unclassified

end CartridgeAudit.Document

namespace CartridgeAudit

/-- A document of the project. -/
structure Document where
  path : Path
  /-- the file name in lower case -/
  name : String
  /-- the normal form of the text -/
  content : Text
  kind : Document.Kind
  /-- what a guide covers -/
  coverage : Option Document.Coverage
  deriving DecidableEq

/-- The document with a raw text. -/
def Document.ofText (path : Path) (raw : Text) (cartridges : CartridgeSet) : Document :=
  let name := lowered path.fileName
  let content := Document.normalize raw
  let kind := Document.Kind.classify name content
  ⟨path, name, content, kind,
    if kind = .guide then some (Document.Coverage.classify cartridges name content) else none⟩

end CartridgeAudit
