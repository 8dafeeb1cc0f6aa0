/-
CartridgeAudit/Document/Archive.lean

Zip archives: finding a member by its name.

Of two members with one name the later counts.  A member is taken as far as the
data goes, so what is cut off shows only when it is unpacked or checked.
-/
import CartridgeAudit.Document.Archive.Directory
import CartridgeAudit.Document.Inflate

namespace CartridgeAudit.Archive

open Bytes

/-- Why a member cannot be had. -/
inductive Fault
  | notAnArchive
  | noSuchMember (name : String)
  | passwordNeeded
  | unsupported
  | damaged
  | stream (cause : Inflate.Fault)
  deriving DecidableEq

/-- The wording of a fault. -/
def Fault.message : Fault → String
  | .notAnArchive => "invalid Zip archive"
  | .noSuchMember _ => "specified file not found in archive"
  | .passwordNeeded => "Password required to decrypt file"
  | .unsupported => "unsupported Zip archive"
  | .damaged => "damaged Zip archive"
  | .stream .incomplete => "incomplete deflate stream"
  | .stream .corrupt => "corrupt deflate stream"

/-- The content of a member, and whether it has the checksum that the directory
gives. -/
structure Content where
  bytes : ByteArray
  intact : Bool

/-- The packed bytes of a member, as far as the data goes. -/
def packed? (data : ByteArray) (r : Record) : Option ByteArray := do
  if (← number? data 4 r.offset) ≠ memberSignature then none
  let nameSize ← number? data 2 (r.offset + 26)
  let extraSize ← number? data 2 (r.offset + 28)
  let start := r.offset + 30 + nameSize + extraSize
  return data.extract start (min data.size (start + r.packedSize))

/-- The bytes of a member: stored as they are, or compressed. -/
def unpack (r : Record) (bytes : ByteArray) : Except Fault ByteArray :=
  if r.method = 0 then .ok bytes
  else if r.method = 8 then (Inflate.inflate bytes).mapError .stream
  else .error .unsupported

/-- The content of a record's member. -/
def content (data : ByteArray) (r : Record) : Except Fault Content :=
  if r.encrypted || r.keyed then .error .passwordNeeded
  else
    match packed? data r with
    | none => .error .damaged
    | some bytes => do
        let b ← unpack r bytes
        return ⟨b, checksum b = r.checksum⟩

/-- The content of the member with a name, which is plain ASCII. -/
def member (data : ByteArray) (name : String) : Except Fault Content :=
  match records? data with
  | none => .error .notAnArchive
  | some rs =>
      match rs.reverse.find? fun r => r.name.data == name.toUTF8.data with
      | none => .error (.noSuchMember name)
      | some r => content data r

end CartridgeAudit.Archive
