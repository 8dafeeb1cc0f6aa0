/-
CartridgeAudit/CommandLine/Arguments.lean

Command lines: which options and arguments each command takes, and what a list
of words asks for.

Words are read from left to right.  The program's own options come before the
name of the command; two of them, the configuration and the level of detail,
may also follow it.  An option that takes a value finds it behind an equals
sign, directly behind its letter, or in the next word, which must not look like
an option.  After `--` every word is an argument.
-/
import CartridgeAudit.Project.Path

namespace CartridgeAudit.CommandLine

/-! ### What a command line asks for -/

/-- The form in which a result is printed. -/
inductive Format
  | text
  | json
  | compact
  deriving DecidableEq

/-- The form of a name. -/
def Format.ofName? : String → Option Format
  | "text" => some .text
  | "json" => some .json
  | "compact" => some .compact
  | _ => none

/-- The options of an audit. -/
structure CheckOptions where
  path : Path
  format : Format
  preset : Option String
  /-- names or codes of rules, with commas between them -/
  rules : Option String
  exclude : List String
  failOn : Option String
  deriving DecidableEq

/-- A command of the program. -/
inductive Command
  /-- audits a project -/
  | check (options : CheckOptions)
  /-- lists the rules -/
  | listRules
  /-- writes a configuration file to start with -/
  | init (force : Bool)
  /-- lists the names of templates and scripts -/
  | fileNames (path output : Path)
  deriving DecidableEq

/-- A command, and the options of the program. -/
structure Invocation where
  verbose : Bool
  config : Option Path
  command : Command
  deriving DecidableEq

/-- A text about the program itself. -/
inductive Page
  | help
  | version
  deriving DecidableEq

/-- What is wrong with a command line. -/
inductive UsageFault
  | unknownOption (word : String)
  | missingValue (option : String)
  | needlessValue (option : String)
  | repeatedOption (option : String)
  | invalidValue (option value : String)
  | unexpectedArgument (word : String)
  | missingCommand
  | unknownCommand (word : String)
  deriving DecidableEq

/-- The wording of a fault. -/
def UsageFault.message : UsageFault → String
  | .unknownOption word => "unexpected argument '" ++ word ++ "' found"
  | .missingValue option => "a value is required for '--" ++ option ++ "' but none was supplied"
  | .needlessValue option => "unexpected value for '--" ++ option ++ "' found"
  | .repeatedOption option => "the argument '--" ++ option ++ "' cannot be used multiple times"
  | .invalidValue option value => "invalid value '" ++ value ++ "' for '" ++ option ++ "'"
  | .unexpectedArgument word => "unexpected argument '" ++ word ++ "' found"
  | .missingCommand => "a subcommand is required but one was not provided"
  | .unknownCommand word => "unrecognized subcommand '" ++ word ++ "'"

/-- Why no command is run. -/
inductive Stop
  | page (p : Page)
  | fault (f : UsageFault)
  deriving DecidableEq

/-! ### Options -/

/-- What an option does. -/
inductive OptionKind
  /-- it is there or not -/
  | flag
  /-- it has a value of which only some are accepted -/
  | value (repeatable : Bool) (accepts : String → Bool)
  /-- it asks for a page -/
  | page (p : Page)

/-- An option: its name behind two dashes, its letter behind one, and what it
does. -/
structure OptionSpec where
  name : String
  letter : Option Char
  kind : OptionKind

/-- Any value. -/
def anyValue : String → Bool := fun _ => true

/-- A path must not be empty. -/
def isPath (s : String) : Bool := s != ""

/-- The options that every command takes. -/
def globalOptions : List OptionSpec :=
  [⟨"verbose", some 'v', .flag⟩, ⟨"config", some 'c', .value false isPath⟩,
   ⟨"help", some 'h', .page .help⟩]

/-- What a command takes besides options. -/
inductive Operand
  | nothing
  | path
  deriving DecidableEq

/-- What a command takes. -/
structure CommandSpec where
  name : String
  options : List OptionSpec
  operand : Operand

/-- The commands. -/
def commands : List CommandSpec :=
  [⟨"check",
     [⟨"format", some 'f', .value false fun s => (Format.ofName? s).isSome⟩,
      ⟨"preset", some 'p', .value false anyValue⟩, ⟨"rules", none, .value false anyValue⟩,
      ⟨"exclude", some 'e', .value true anyValue⟩, ⟨"fail-on", none, .value false anyValue⟩],
     .path⟩,
   ⟨"list-rules", [], .nothing⟩,
   ⟨"init", [⟨"force", none, .flag⟩], .nothing⟩,
   ⟨"file-names", [⟨"output", some 'o', .value false isPath⟩], .path⟩]

/-! ### Reading words -/

/-- What has been read: options with their values in order, and the path. -/
structure Scan where
  options : List (String × String)
  path : Option String
  deriving DecidableEq

namespace Scan

/-- Nothing. -/
def empty : Scan := ⟨[], none⟩

/-- Whether an option was given. -/
def has (s : Scan) (name : String) : Bool := s.options.any (·.1 == name)

/-- The value of an option. -/
def value? (s : Scan) (name : String) : Option String := s.options.lookup name

/-- All values of an option. -/
def values (s : Scan) (name : String) : List String :=
  (s.options.filter (·.1 == name)).map (·.2)

/-- Adds an option without value. -/
def addFlag (s : Scan) (name : String) : Except Stop Scan :=
  if s.has name then .error (.fault (.repeatedOption name))
  else .ok { s with options := s.options ++ [(name, "")] }

/-- Adds an option with its value. -/
def addValue (s : Scan) (name : String) (repeatable : Bool) (accepts : String → Bool)
    (value : String) : Except Stop Scan :=
  if !repeatable && s.has name then .error (.fault (.repeatedOption name))
  else if accepts value then .ok { s with options := s.options ++ [(name, value)] }
  else .error (.fault (.invalidValue ("--" ++ name) value))

/-- Adds an argument, if the command takes a path and has none yet. -/
def addPath (s : Scan) (operand : Operand) (word : String) : Except Stop Scan :=
  if operand = .nothing || s.path.isSome then .error (.fault (.unexpectedArgument word))
  else if isPath word then .ok { s with path := some word }
  else .error (.fault (.invalidValue "[PATH]" word))

end Scan

/-- A word as the name of an option, with the value behind its equals sign. -/
def longOption? (word : String) : Option (String × Option String) :=
  match word.toList with
  | '-' :: '-' :: c :: cs =>
      match Text.cutAt '=' (c :: cs) with
      | some (name, value) => some (String.ofList name, some (String.ofList value))
      | none => some (String.ofList (c :: cs), none)
  | _ => none

/-- A word as letters of options. -/
def letters? (word : String) : Option (List Char) :=
  match word.toList with
  | '-' :: c :: cs => if c = '-' then none else some (c :: cs)
  | _ => none

/-- Whether a word cannot be the value of the option before it. -/
def looksLikeOption (word : String) : Bool :=
  word == "--" || (longOption? word).isSome || (letters? word).isSome

/-- An option that still needs its value. -/
structure Pending where
  name : String
  repeatable : Bool
  accepts : String → Bool

/-- Reads letters: flags, and perhaps an option with what follows as its value. -/
def scanLetters (options : List OptionSpec) : Scan → List Char → Except Stop (Scan × Option Pending)
  | s, [] => .ok (s, none)
  | s, c :: cs =>
      match options.find? (·.letter == some c) with
      | none => .error (.fault (.unknownOption ("-" ++ c.toString)))
      | some spec =>
          match spec.kind with
          | .page p => .error (.page p)
          | .flag => do scanLetters options (← s.addFlag spec.name) cs
          | .value repeatable accepts =>
              match cs with
              | [] => .ok (s, some ⟨spec.name, repeatable, accepts⟩)
              | '=' :: value => do
                  return (← s.addValue spec.name repeatable accepts (String.ofList value), none)
              | value => do
                  return (← s.addValue spec.name repeatable accepts (String.ofList value), none)

/-- Reads a name of an option, with or without a value. -/
def scanLong (options : List OptionSpec) (s : Scan) (name : String) (value : Option String) :
    Except Stop (Scan × Option Pending) :=
  match options.find? (·.name == name) with
  | none => .error (.fault (.unknownOption ("--" ++ name)))
  | some spec =>
      match spec.kind, value with
      | .page p, none => .error (.page p)
      | .page _, some _ => .error (.fault (.needlessValue name))
      | .flag, none => do return (← s.addFlag name, none)
      | .flag, some _ => .error (.fault (.needlessValue name))
      | .value repeatable accepts, none => .ok (s, some ⟨name, repeatable, accepts⟩)
      | .value repeatable accepts, some v => do
          return (← s.addValue name repeatable accepts v, none)

/-- Reads a word that is an option; none if it is an argument. -/
def scanOption (options : List OptionSpec) (s : Scan) (word : String) :
    Option (Except Stop (Scan × Option Pending)) :=
  match longOption? word with
  | some (name, value) => some (scanLong options s name value)
  | none => (letters? word).map (scanLetters options s)

/-- Reads words up to the first argument and returns the words from there on. -/
def scanOptions (options : List OptionSpec) : Scan → List String → Except Stop (Scan × List String)
  | s, [] => .ok (s, [])
  | s, word :: words =>
      if word = "--" then .ok (s, word :: words)
      else
        match scanOption options s word with
        | none => .ok (s, word :: words)
        | some (.error e) => .error e
        | some (.ok (s', none)) => scanOptions options s' words
        | some (.ok (s', some pending)) =>
            match words with
            | [] => .error (.fault (.missingValue pending.name))
            | value :: words' =>
                if looksLikeOption value then .error (.fault (.missingValue pending.name))
                else do
                  let s'' ← s'.addValue pending.name pending.repeatable pending.accepts value
                  scanOptions options s'' words'

/-- Reads options and arguments in any order; there are at most `n` arguments
more than the command takes. -/
def scanArguments (options : List OptionSpec) (operand : Operand) :
    Nat → Scan → List String → Except Stop Scan
  | n, s, words => do
      match ← scanOptions options s words with
      | (s', []) => return s'
      | (s', word :: rest) =>
          if word = "--" then rest.foldlM (fun s w => s.addPath operand w) s'
          else
            match n with
            | 0 => .error (.fault (.unexpectedArgument word))
            | n + 1 => do scanArguments options operand n (← s'.addPath operand word) rest

/-! ### Invocations -/

/-- The word that asks for help on a command. -/
def helpCommand : String := "help"

/-- The options of the program before the name of a command. -/
def programOptions : List OptionSpec := globalOptions ++ [⟨"version", some 'V', .page .version⟩]

/-- The path of a scan, or the current directory. -/
def Scan.pathOrHere (s : Scan) : Path := ⟨s.path.getD "."⟩

/-- The command of a name with what was read. -/
def commandOf (name : String) (s : Scan) : Command :=
  match name with
  | "check" => .check {
      path := s.pathOrHere
      format := ((s.value? "format").bind Format.ofName?).getD .text
      preset := s.value? "preset"
      rules := s.value? "rules"
      exclude := s.values "exclude"
      failOn := s.value? "fail-on" }
  | "init" => .init (s.has "force")
  | "file-names" => .fileNames s.pathOrHere ⟨(s.value? "output").getD "./output"⟩
  | _ => .listRules

/-- The configuration that is named: behind the command, before it, or by the
environment. An empty name in the environment is refused, unless the option is
given in both places. -/
def namedConfig (before behind : Scan) (inherited : Option String) : Except Stop (Option Path) :=
  if inherited = some "" && !(before.has "config" && behind.has "config") then
    .error (.fault (.invalidValue "--config" ""))
  else .ok ((behind.value? "config" <|> before.value? "config" <|> inherited).map Path.mk)

/-- What a page on help is asked for: the program or one of its commands. -/
def helpOn : List String → Stop
  | [] => .page .help
  | [name] =>
      if name == helpCommand || commands.any (·.name == name) then .page .help
      else .fault (.unknownCommand name)
  | _ :: word :: _ => .fault (.unknownCommand word)

/-- What a command line asks for, where `inherited` is the configuration that the
environment names. -/
def Invocation.parse (inherited : Option String) (words : List String) :
    Except Stop Invocation := do
  match ← scanOptions programOptions .empty words with
  | (_, []) => .error (.fault .missingCommand)
  | (before, name :: rest) =>
      if name = helpCommand then .error (helpOn rest)
      else
        match commands.find? (·.name == name) with
        | none => .error (.fault (.unknownCommand name))
        | some spec => do
            let behind ← scanArguments (spec.options ++ globalOptions) spec.operand 1 .empty rest
            let config ← namedConfig before behind inherited
            return ⟨before.has "verbose" || behind.has "verbose", config, commandOf name behind⟩

end CartridgeAudit.CommandLine
