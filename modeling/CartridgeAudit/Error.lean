/-
CartridgeAudit/Error.lean

What can go wrong, as causes.

A rule that is broken is never an error: it is a violation and is reported.
The errors here end a run.  Each is a cause with its data; the wording is in
one function per kind, `message`, and `AuditError.causes` lists the messages of
the causes behind an error, the nearest first.
-/
import CartridgeAudit.Text.Search

namespace CartridgeAudit

/-! ### Scanning -/

/-- A scanner met the end of a malformed text. Offsets are byte offsets. -/
inductive ScanError
  /-- a delimiter is never closed -/
  | unterminatedScope (opener : Char) (offset : Nat)
  /-- a tag, whose name begins at the offset, has no end -/
  | unterminatedTag (offset : Nat)
  /-- none of the targets occurs from the offset on -/
  | missingSequence (targets : List Text) (offset : Nat)
  deriving DecidableEq

/-- The wording of a scanner's failure. -/
def ScanError.message : ScanError → String
  | .unterminatedScope opener offset =>
      s!"unterminated `" ++ opener.toString ++ s!"` opened at offset {offset}"
  | .unterminatedTag offset => s!"unterminated tag starting at offset {offset}"
  | .missingSequence targets offset =>
      "none of `" ++ String.ofList (Text.join ['|'] targets) ++ s!"` found after offset {offset}"

/-! ### Files -/

/-- Why a file could not be read or written. -/
inductive FileError
  | notFound
  | denied
  | exists
  | notDirectory
  | isDirectory
  | nameTooLong
  | tooManyLinks
  | nulInName
  | notText
  | incompleteStream
  | badStream
  | badChecksum
  deriving DecidableEq

/-- The wording of the operating system. -/
def FileError.message : FileError → String
  | .notFound => "No such file or directory (os error 2)"
  | .denied => "Permission denied (os error 13)"
  | .exists => "File exists (os error 17)"
  | .notDirectory => "Not a directory (os error 20)"
  | .isDirectory => "Is a directory (os error 21)"
  | .nameTooLong => "File name too long (os error 36)"
  | .tooManyLinks => "Too many levels of symbolic links (os error 40)"
  | .nulInName => "file name contained an unexpected NUL byte"
  | .notText => "stream did not contain valid UTF-8"
  | .incompleteStream => "incomplete deflate stream"
  | .badStream => "corrupt deflate stream"
  | .badChecksum => "Invalid checksum"

/-! ### Configuration -/

/-- What is missing or wrong in the configuration or in the project. -/
inductive ConfigurationFault
  | unknownSeverity (name : String)
  | settingMissing (key : String)
  | documentsNotLoaded
  | noDocuments (directory : String)
  | noGuides (kind : String)
  | noManifest (file path : String)
  deriving DecidableEq

/-- The wording of a configuration fault. -/
def ConfigurationFault.message : ConfigurationFault → String
  | .unknownSeverity name =>
      "unknown severity `" ++ name ++ "`. Valid values: error, warning, info"
  | .settingMissing key => "`project." ++ key ++ "` is not configured"
  | .documentsNotLoaded => "documentation was not loaded for this run"
  | .noDocuments directory => "no documentation files found under " ++ directory
  | .noGuides kind => "no " ++ kind ++ " guides found"
  | .noManifest file path => "no " ++ file ++ " found at " ++ path

/-- Why a configuration file could not be used. -/
inductive ConfigError
  | unreadable (path : String) (cause : FileError)
  | malformed (detail : String)
  deriving DecidableEq

/-- The wording of a failure to load the configuration. -/
def ConfigError.message : ConfigError → String
  | .unreadable path cause => "Failed to read config file " ++ path ++ ": " ++ cause.message
  | .malformed detail => "Failed to parse config: " ++ detail

/-! ### Documents -/

/-- What a document lacks. -/
inductive DocumentError
  | missingContents
  | emptyContents
  | missingHeading (heading : Text)
  | missingSection (name : Text)
  deriving DecidableEq

/-- The wording of a document's defect. -/
def DocumentError.message : DocumentError → String
  | .missingContents => "no table of contents found"
  | .emptyContents => "table of contents has no numbered entries"
  | .missingHeading heading =>
      "heading `" ++ String.ofList heading ++
        "` from the table of contents not found in the document body"
  | .missingSection name =>
      "section `" ++ String.ofList name ++ "` is not listed in the table of contents"

/-! ### Arguments -/

/-- A call that no caller should make. -/
inductive ArgumentFault
  /-- the byte at the offset, if there is one, opens no scope -/
  | notDelimiter (offset : Nat) (byte : Option UInt8)
  | emptyText (offset : Nat)
  deriving DecidableEq

/-- A number in hexadecimal digits. -/
def hexadecimal (n : Nat) : String := String.ofList (Nat.toDigits 16 n)

/-- A byte, read as the character with its number: as it is if it can be
printed, escaped otherwise. -/
def showByte (b : UInt8) : String :=
  let n := b.toNat
  if n = 0 then "\\0"
  else if n = 9 then "\\t"
  else if n = 10 then "\\n"
  else if n = 13 then "\\r"
  else if n = 39 then "\\'"
  else if n = 92 then "\\\\"
  else if n < 0x20 || (0x7f ≤ n && n ≤ 0xa0) || n = 0xad then
    "\\u\x7b" ++ hexadecimal n ++ "\x7d"
  else (Char.ofNat n).toString

/-- The wording of a bad call. -/
def ArgumentFault.message : ArgumentFault → String
  | .notDelimiter offset byte =>
      let shown := match byte with
        | none => "None"
        | some b => "Some('" ++ showByte b ++ "')"
      s!"offset {offset} is not an opening delimiter (" ++ shown ++ ")"
  | .emptyText offset => s!"violation text must not be empty (offset {offset})"

/-! ### Errors of an audit -/

/-- What ends an audit. -/
inductive AuditError
  | configuration (fault : ConfigurationFault)
  /-- a scanner's failure in a known file -/
  | malformedInput (path : String) (cause : ScanError)
  | scan (cause : ScanError)
  | invalidArgument (fault : ArgumentFault)
  | io (cause : FileError)
  /-- a directory on a walk that cannot be read -/
  | walk (path : String) (cause : FileError)
  | pattern (detail : String)
  | glob (detail : String)
  | archive (path detail : String)
  | json (path detail : String)
  | document (cause : DocumentError)
  | config (cause : ConfigError)
  deriving DecidableEq

namespace AuditError

/-- The wording of a failure on a walk. -/
def walkDetail (path : String) (cause : FileError) : String :=
  "IO error for operation on " ++ path ++ ": " ++ cause.message

/-- The wording of an error, its cause included. -/
def message : AuditError → String
  | .configuration fault => "Configuration error: " ++ fault.message
  | .malformedInput path cause => "Malformed input in " ++ path ++ ": " ++ cause.message
  | .scan cause => "Malformed input: " ++ cause.message
  | .invalidArgument fault => "Invalid argument: " ++ fault.message
  | .io cause => "IO error: " ++ cause.message
  | .walk path cause => "Failed to walk source tree: " ++ walkDetail path cause
  | .pattern detail => "Invalid pattern: " ++ detail
  | .glob detail => "Invalid glob pattern: " ++ detail
  | .archive path detail => "Failed to read archive " ++ path ++ ": " ++ detail
  | .json path detail => "Failed to parse " ++ path ++ ": " ++ detail
  | .document cause => "Malformed document: " ++ cause.message
  | .config cause => cause.message

/-- The messages of the causes behind an error, the nearest first. -/
def causes : AuditError → List String
  | .configuration _ | .invalidArgument _ => []
  | .malformedInput _ cause | .scan cause => [cause.message]
  | .io cause => [cause.message]
  | .walk path cause => [walkDetail path cause, cause.message]
  | .pattern detail | .glob detail | .archive _ detail | .json _ detail => [detail]
  | .document cause => [cause.message]
  | .config (.unreadable _ cause) => [cause.message]
  | .config (.malformed _) => []

/-- Attributes a scanner's failure to the file it read. -/
def inFile (path : String) : AuditError → AuditError
  | .scan cause => .malformedInput path cause
  | e => e

end AuditError

end CartridgeAudit
