/-
CartridgeAudit/CommandLine/Run.lean

What the program does with a command line.

A run is a function: it gets the command line, the environment and the disk,
and says what to print, what to change on the disk, and with which code to end.
-/
import CartridgeAudit.Analysis
import CartridgeAudit.CommandLine.NameListing
import CartridgeAudit.CommandLine.Output
import CartridgeAudit.CommandLine.Starter
import CartridgeAudit.Config.Lookup

namespace CartridgeAudit.CommandLine

/-! ### Failures -/

/-- A failure: what the program was about to do, and the causes behind it, the
nearest first. -/
structure Failure where
  top : String
  causes : List String
  deriving DecidableEq

namespace Failure

/-- A failure of an audit. -/
def ofAudit (e : AuditError) : Failure := ⟨e.message, e.causes⟩

/-- A failure to use a configuration. -/
def ofConfig (e : ConfigError) : Failure :=
  ⟨e.message, match e with
    | .unreadable _ cause => [cause.message]
    | .malformed _ => []⟩

/-- A failure of the operating system. -/
def ofFile (e : FileError) : Failure := ⟨e.message, []⟩

/-- The failure of what led to a failure. -/
def within (top : String) (f : Failure) : Failure := ⟨top, f.top :: f.causes⟩

/-- A text whose lines after the first are indented. -/
def hanging (indent : Text) (s : String) : String :=
  String.ofList (Text.replaceAll ['\n'] ('\n' :: indent) s.toList)

/-- The causes, numbered if there are several. -/
def listCauses (causes : List String) : List String :=
  match causes with
  | [cause] => ["    " ++ hanging "    ".toList cause]
  | _ => causes.mapIdx fun i cause =>
      let number := toString i
      String.ofList (List.replicate (5 - number.length) ' ') ++ number ++ ": " ++
        hanging "       ".toList cause

/-- The printed form of a failure. -/
def render (f : Failure) : String :=
  "Error: " ++ f.top ++
    (if f.causes.isEmpty then ""
     else "\n\nCaused by:\n" ++ "\n".intercalate (listCauses f.causes)) ++ "\n"

end Failure

/-! ### Runs -/

/-- What a run finds around it. -/
structure Environment where
  disk : Disk
  /-- the configuration file that the environment names -/
  config : Option String
  /-- the directory with the shared configuration that the environment names -/
  configDir : Option String
  home : Option String
  year : Int

/-- The directory with the shared configuration. -/
def Environment.sharedDir (e : Environment) : Option Path :=
  match e.configDir with
  | some dir => some ⟨dir⟩
  | none => e.home.map fun home => Path.join ⟨home⟩ ⟨".cartridge-lint"⟩

/-- A change on the disk. -/
inductive Change
  /-- a directory with all directories above it -/
  | directory (path : Path)
  | file (path : Path) (content : String)

/-- What a run does. -/
structure Outcome where
  code : Nat
  out : String
  err : String
  notices : List Notice
  changes : List Change

namespace Outcome

/-- A run that prints and succeeds. -/
def printed (out : String) : Outcome := ⟨0, out, "", [], []⟩

/-- A run that fails after it has printed something. -/
def failedAfter (out : String) (notices : List Notice) (f : Failure) : Outcome :=
  ⟨1, out, f.render, notices, []⟩

/-- A run that fails. -/
def failed (notices : List Notice) (f : Failure) : Outcome := failedAfter "" notices f

end Outcome

/-- A step of a command: it may fail, and it adds to the notices. -/
abbrev Step (α : Type) := ExceptT Failure (StateM (List Notice)) α

namespace Step

/-- A step of an audit as a step of a command. -/
def ofAudit (wrap : Failure → Failure) (x : Audit α) : Step α := fun notices =>
  match x notices with
  | (.ok a, rest) => (.ok a, rest)
  | (.error e, rest) => (.error (wrap (.ofAudit e)), rest)

/-- A step that leaves no notice. -/
def ofExcept (x : Except Failure α) : Step α := fun notices => (x, notices)

end Step

/-! ### Configuration -/

/-- The configuration for a path. -/
def settingsFor (e : Environment) (named : Option Path) (path : Path) : Except Failure Settings :=
  match (ConfigSource.resolve e.disk path named e.sharedDir).path? with
  | none => .ok .standard
  | some p => (Settings.load e.disk p).mapError fun c =>
      (Failure.ofConfig c).within ("Failed to load config: " ++ p.text)

/-! ### Audits -/

/-- The rules that a command line picks by names or codes, and a notice for each
name that none of them has. -/
def pickRules (filter : String) (s : Settings) (year : Int) :
    List Rule × List ProjectRule × List Notice :=
  let names := (Text.splitOn (· == ',') filter.toList).map fun n => String.ofList (Text.trim n)
  let picked (name code : String) : Bool := names.any fun n => n == name || n == code
  let onFiles := (fileRules s).filter fun r => picked r.name r.code
  let onProject := (projectRules s year).filter fun r => picked r.name r.code
  let known (n : String) : Bool :=
    onFiles.any (fun r => r.name == n || r.code == n) ||
      onProject.any fun r => r.name == n || r.code == n
  (onFiles, onProject, (names.filter (!known ·)).map .unknownRule)

/-- The rules of the preset that is named, by the option or the configuration. -/
def presetRules (named : Option String) (s : Settings) (year : Int) :
    Except Failure (List Rule × List ProjectRule × List Notice) :=
  let ofPreset (p : Preset) := (p.fileRules s, p.projectRules s year, [])
  match named <|> s.preset with
  | none => .ok (ofPreset .recommended)
  | some name =>
      match Preset.ofName? name with
      | some p => .ok (ofPreset p)
      | none => .error ⟨"Unknown preset: " ++ name, []⟩

/-- Audits a project; the result comes with the severity on which it fails. -/
def audit (e : Environment) (named : Option Path) (o : CheckOptions) :
    Step (AuditResult × Severity) := do
  let s ← Step.ofExcept (settingsFor e named o.path)
  let failOn ← Step.ofExcept
    ((Severity.ofName ((o.failOn <|> s.failOn).getD Severity.error.name)).mapError fun c =>
      (Failure.ofAudit c).within "Invalid --fail-on")
  let (onFiles, onProject, notices) ← Step.ofExcept <| match o.rules with
    | some filter => .ok (pickRules filter s e.year)
    | none => presetRules o.preset s e.year
  modify (· ++ notices)
  let a ← Step.ofAudit (.within "Failed to build analyzer")
    (Analysis.openAt e.disk o.path s onFiles onProject o.exclude .standard)
  let result ← Step.ofAudit (.within "Audit failed") a.run
  return (result, failOn)

/-- Audits a project and prints the result. -/
def runCheck (e : Environment) (named : Option Path) (o : CheckOptions) : Outcome :=
  match audit e named o [] with
  | (.error f, notices) => .failed notices f
  | (.ok (result, failOn), notices) =>
      match output o.format result with
      | (out, some c) => .failedAfter out notices (.ofAudit c)
      | (out, none) => ⟨if result.hasFailuresAt failOn then 1 else 0, out, "", notices, []⟩

/-! ### Lists of rules -/

/-- A text filled up with blanks to a width. -/
def column (width : Nat) (s : String) : String :=
  s ++ String.ofList (List.replicate (width - s.length) ' ')

/-- A row of the table of rules. -/
def ruleRow (code name description : String) : String :=
  column 10 code ++ " " ++ column 32 name ++ " " ++ description ++ "\n"

/-- The head of the table of rules. -/
def ruleTableHead : String :=
  ruleRow "Code" "Name" "Description" ++ String.ofList (List.replicate 90 '-') ++ "\n"

/-- The list of all rules. -/
def ruleList (year : Int) : String :=
  "Per-file rules:\n\n" ++ ruleTableHead ++
    String.join ((fileRules .standard).map fun r => ruleRow r.code r.name r.description) ++
    "\nProject rules:\n\n" ++ ruleTableHead ++
    String.join ((projectRules .standard year).map fun r => ruleRow r.code r.name r.description) ++
    "\nPresets:\n" ++
    "  recommended  - CL001-CL019, CL100, CL101, CL107 (default)\n" ++
    "  strict       - All rules, documentation included; style warnings become errors\n" ++
    "  minimal      - CL001, CL003, CL004, CL005, CL007 (for gradual adoption)\n" ++
    "\nUse --rules to filter specific rules, e.g.:\n" ++
    "  cartridge-lint check --rules no-todo,no-important\n" ++
    "  cartridge-lint check --rules CL011,CL012,CL102\n"

/-! ### A configuration to start with -/

/-- The file with the configuration to start with. -/
def starterPath : Path := ⟨"cartridge-lint.toml"⟩

/-- Writes a configuration to start with; one that is there is kept, unless the
user insists. -/
def runInit (e : Environment) (force : Bool) : Outcome :=
  if e.disk.contains starterPath && !force then
    .failed [] ⟨"Configuration file already exists at " ++ starterPath.text ++
      ". Use --force to overwrite.", []⟩
  else
    match e.disk.writeFile starterPath starterConfig.toUTF8 with
    | .error c => .failed [] (.ofFile c)
    | .ok _ => ⟨0, "Created cartridge-lint.toml\n\nNext steps:\n" ++
        "  1. Set the versions under [project]\n" ++ "  2. Run: cartridge-lint check\n",
        "", [], [.file starterPath starterConfig]⟩

/-! ### Lists of names -/

/-- The name of the file with the listing. -/
def listingName : String := "fileNames.txt"

/-- The listing for a project. -/
def listing (e : Environment) (named : Option Path) (path : Path) : Step String := do
  let s ← Step.ofExcept (settingsFor e named path)
  let c ← Step.ofAudit (.within "Failed to open project")
    (Corpus.openAt e.disk path s.project.excludeChanges s.exclude)
  Step.ofAudit id (nameListing c)

/-- Writes the listing for a project into a directory, which is made if it is
not there. -/
def runFileNames (e : Environment) (named : Option Path) (path dir : Path) : Outcome :=
  match listing e named path [] with
  | (.error f, notices) => .failed notices f
  | (.ok content, notices) =>
      match e.disk.createDirectories dir with
      | .error c => .failed notices ((Failure.ofFile c).within ("Failed to create " ++ dir.text))
      | .ok d =>
          let target := dir.join ⟨listingName⟩
          match d.writeFile target content.toUTF8 with
          | .error c =>
              let failure := (Failure.ofFile c).within
                ("Unable to write file names to " ++ target.text)
              { Outcome.failed notices failure with changes := [.directory dir] }
          | .ok _ => ⟨0, "Wrote " ++ target.text ++ "\n", "", notices,
              [.directory dir, .file target content]⟩

/-! ### The program -/

/-- The version of the program. -/
def versionLine : String := "cartridge-lint 0.4.2\n"

/-- How the program is used. -/
def helpText : String :=
  "Certification auditor for Salesforce B2C Commerce cartridge repositories\n\n" ++
    "Usage: cartridge-lint [OPTIONS] <COMMAND>\n\nCommands:\n" ++
    "  check       Run audit checks\n" ++
    "  list-rules  List available rules\n" ++
    "  init        Initialize configuration file\n" ++
    "  file-names  List template and script names, flagging ones off the naming convention\n" ++
    "  help        Print this message or the help of the given subcommand(s)\n"

/-- Runs a command. -/
def runCommand (e : Environment) (i : Invocation) : Outcome :=
  match i.command with
  | .check o => runCheck e i.config o
  | .listRules => .printed (ruleList e.year)
  | .init force => runInit e force
  | .fileNames path dir => runFileNames e i.config path dir

/-- Runs the program on the words of a command line. -/
def run (e : Environment) (words : List String) : Outcome :=
  match Invocation.parse e.config words with
  | .ok i => runCommand e i
  | .error (.page .help) => .printed helpText
  | .error (.page .version) => .printed versionLine
  | .error (.fault f) => ⟨2, "", "error: " ++ f.message ++ "\n", [], []⟩

end CartridgeAudit.CommandLine
