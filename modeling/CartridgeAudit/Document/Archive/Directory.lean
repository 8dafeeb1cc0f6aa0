/-
CartridgeAudit/Document/Archive/Directory.lean

The directory of a zip archive.

An archive ends with an *end record*, which says where the directory begins and
how many records it has.  Each record of the directory names a member and says
where its data begins, how it is packed and what its checksum is.  The rules
below decide what is accepted when the parts disagree.

* Bytes may stand in front of an archive: all places that the archive itself
  names are then shifted by their number (`Ending.shift`).  The directory begins
  with the first record at or behind the place where it should be, and that
  tells the shift.
* An end record that leads to no directory is passed over, and an earlier one is
  tried (`records?`).
* An end record whose fields are too small for its numbers is preceded by a
  locator, which leads to a longer end record (`longEnding?`).
* Records have extra fields.  Some are read, and a malformed one of those makes
  the directory malformed; one that is cut off ends the list.
-/
import CartridgeAudit.Document.Bytes

namespace CartridgeAudit.Archive

open Bytes

/-! ### Signatures -/

/-- The signature of the end record. -/
def endSignature : Nat := 0x06054b50

/-- The signature of the long end record. -/
def longEndSignature : Nat := 0x06064b50

/-- The signature of the locator of the long end record. -/
def locatorSignature : Nat := 0x07064b50

/-- The signature of a record of the directory. -/
def recordSignature : Nat := 0x02014b50

/-- The signature in front of a member. -/
def memberSignature : Nat := 0x04034b50

/-- The first place in `[pos, pos + n)` that has a signature. -/
def findSignature? (data : ByteArray) (signature : Nat) : Nat → Nat → Option Nat
  | 0, _ => none
  | n + 1, pos =>
      if number? data 4 pos = some signature then some pos
      else findSignature? data signature n (pos + 1)

/-! ### Records -/

/-- A record of the directory. -/
structure Record where
  name : ByteArray
  comment : ByteArray
  /-- whether the flags say that the data is encrypted -/
  encrypted : Bool
  /-- whether an extra field says how the data is encrypted -/
  keyed : Bool
  method : Nat
  checksum : Nat
  packedSize : Nat
  size : Nat
  offset : Nat

/-- The number in a field of four bytes that says that it is found elsewhere. -/
def elsewhere : Nat := 0xffffffff

/-- The result of reading an extra field. -/
inductive Extra
  /-- the record, and the place behind the field -/
  | next (r : Record) (pos : Nat)
  /-- the field is cut off -/
  | stop (r : Record)
  | malformed

/-- One of the long numbers of a record: it is there if the field is long enough
for all or the short number says so. -/
def longNumber (data : ByteArray) (size short pos : Nat) : Option (Nat × Nat) :=
  if 24 ≤ size ∨ short = elsewhere then (number? data 8 pos).map fun n => (n, pos + 8)
  else some (short, pos)

/-- The field with long numbers. -/
def longSizes (data : ByteArray) (size pos : Nat) (r : Record) : Extra :=
  match longNumber data size r.size pos with
  | none => .stop r
  | some (n, pos1) =>
      let r := { r with size := n }
      match longNumber data size r.packedSize pos1 with
      | none => .stop r
      | some (n, pos2) =>
          let r := { r with packedSize := n }
          match longNumber data size r.offset pos2 with
          | none => .stop r
          | some (n, pos3) =>
              let r := { r with offset := n }
              if pos + size < pos3 then .malformed else .next r (pos + size)

/-- The field with file times of 64 bits: a header and three times. -/
def fileTimes (data : ByteArray) (size pos : Nat) (r : Record) : Extra :=
  if size ≠ 32 then .malformed
  else
    match number? data 2 (pos + 4), number? data 2 (pos + 6) with
    | some tag, some length =>
        if tag ≠ 1 ∨ length ≠ 24 then .malformed else .next r (pos + size)
    | _, _ => .stop r

/-- The field about encryption. -/
def encryption (data : ByteArray) (size pos : Nat) (r : Record) : Extra :=
  if size ≠ 7 then .malformed
  else
    match number? data 2 pos, number? data 2 (pos + 2), number? data 1 (pos + 4),
      number? data 2 (pos + 5) with
    | some version, some vendor, some strength, some _ =>
        if vendor ≠ 0x4541 ∨ (version ≠ 1 ∧ version ≠ 2) ∨ strength = 0 ∨ 3 < strength then
          .malformed
        else .next { r with keyed := true } (pos + size)
    | _, _, _, _ => .stop r

/-- The number of bits that are set in a byte. -/
def bitCount (n : Nat) : Nat := ((List.range 8).filter n.testBit).length

/-- The field with times of 32 bits. The flags tell which are there; a field
with room for one has the first. -/
def unixTimes (data : ByteArray) (size pos : Nat) (r : Record) : Extra :=
  match number? data 1 pos with
  | none => .stop r
  | some flags =>
      if size ≠ 5 ∧ size ≠ 1 + 4 * bitCount flags then .malformed
      else
        let times := if size = 5 then 1 else bitCount (flags % 8)
        let behind := pos + 1 + 4 * times
        if data.size < behind then .stop r else .next r behind

/-- The text of a field that replaces another text, whose checksum it gives. -/
inductive Replacement
  | text (t : ByteArray)
  | cutOff
  | malformed

/-- Reads a field that replaces a text. -/
def replacement (data : ByteArray) (size pos : Nat) (replaced : ByteArray) : Replacement :=
  if size < 5 then .malformed
  else
    match number? data 4 (pos + 1), slice? data (pos + 5) (size - 5) with
    | some sum, some t =>
        if sum = checksum replaced ∧ t.validateUTF8 then .text t else .malformed
    | _, _ => .cutOff

/-- One extra field behind its kind and size. -/
def extraField (data : ByteArray) (kind size pos : Nat) (r : Record) : Extra :=
  if kind = 0x0001 then longSizes data size pos r
  else if kind = 0x000a then fileTimes data size pos r
  else if kind = 0x9901 then encryption data size pos r
  else if kind = 0x5455 then unixTimes data size pos r
  else if kind = 0x6375 then
    match replacement data size pos r.comment with
    | .text t => .next { r with comment := t } (pos + size)
    | .cutOff => .stop r
    | .malformed => .malformed
  else if kind = 0x7075 then
    match replacement data size pos r.name with
    | .text t => .next { r with name := t } (pos + size)
    | .cutOff => .stop r
    | .malformed => .malformed
  else if pos + size ≤ data.size then .next r (pos + size)
  else .stop r

/-- All extra fields from a place on. Every field takes four bytes or more, so
the size of the data is enough fuel. -/
def extraFields (data : ByteArray) : Nat → Nat → Record → Option Record
  | 0, _, r => some r
  | fuel + 1, pos, r =>
      match number? data 2 pos, number? data 2 (pos + 2) with
      | some kind, some size =>
          match extraField data kind size (pos + 4) r with
          | .next r pos => extraFields data fuel pos r
          | .stop r => some r
          | .malformed => none
      | _, _ => some r

/-- The packing method that says that the data is encrypted. -/
def encryptedMethod : Nat := 99

/-- A record of the directory and the place behind it. What it says about places
is shifted. -/
def record? (data : ByteArray) (shift pos : Nat) : Option (Record × Nat) := do
  if (← number? data 4 pos) ≠ recordSignature then none
  let flags ← number? data 2 (pos + 8)
  let method ← number? data 2 (pos + 10)
  let nameSize ← number? data 2 (pos + 28)
  let extraSize ← number? data 2 (pos + 30)
  let commentSize ← number? data 2 (pos + 32)
  let extra ← slice? data (pos + 46 + nameSize) extraSize
  let plain : Record := {
    name := ← slice? data (pos + 46) nameSize
    comment := ← slice? data (pos + 46 + nameSize + extraSize) commentSize
    encrypted := flags % 2 = 1
    keyed := false
    method := method
    checksum := ← number? data 4 (pos + 16)
    packedSize := ← number? data 4 (pos + 20)
    size := ← number? data 4 (pos + 24)
    offset := ← number? data 4 (pos + 42) }
  let r ← extraFields extra extra.size 0 plain
  if method = encryptedMethod && !r.keyed then none
  if UInt64.size ≤ r.offset + shift then none
  return ({ r with offset := r.offset + shift }, pos + 46 + nameSize + extraSize + commentSize)

/-- So many records from a place on. -/
def recordsFrom (data : ByteArray) (shift : Nat) : Nat → Nat → Option (List Record)
  | 0, _ => some []
  | n + 1, pos => do
      let (r, pos) ← record? data shift pos
      let rest ← recordsFrom data shift n pos
      return r :: rest

/-! ### End records -/

/-- What an end record says about the directory. -/
structure Ending where
  /-- how many bytes stand in front of the archive -/
  shift : Nat
  /-- where the directory begins, counted from the archive's beginning -/
  offset : Nat
  /-- the number of records -/
  count : Nat

/-- The end record at a place. -/
def shortEnding? (data : ByteArray) (pos : Nat) : Option Ending := do
  let disk ← number? data 2 (pos + 4)
  let directoryDisk ← number? data 2 (pos + 6)
  let count ← number? data 2 (pos + 8)
  let total ← number? data 2 (pos + 10)
  let offset ← number? data 4 (pos + 16)
  if disk ≠ directoryDisk then none
  if total = 0 then return ⟨pos - offset, offset, count⟩
  let found ← findSignature? data recordSignature (pos - offset) offset
  return ⟨found - offset, offset, count⟩

/-- The long end record at a place, which should be at `stated` and reaches up
to its locator. -/
def longEndingAt? (data : ByteArray) (stated locator locatorDisk pos : Nat) : Option Ending := do
  if (← number? data 4 pos) ≠ longEndSignature then none
  let size ← number? data 8 (pos + 4)
  let madeBy ← number? data 2 (pos + 12)
  let needed ← number? data 2 (pos + 14)
  let disk ← number? data 4 (pos + 16)
  let directoryDisk ← number? data 4 (pos + 20)
  let count ← number? data 8 (pos + 24)
  let total ← number? data 8 (pos + 32)
  let offset ← number? data 8 (pos + 48)
  if size < 44 ∨ pos + size + 12 ≠ locator then none
  if disk ≠ directoryDisk ∨ directoryDisk ≠ locatorDisk then none
  if pos < 46 * total + offset ∨ total < count ∨ madeBy < needed then none
  return ⟨pos - stated, offset, total⟩

/-- The long end record that the locator at a place leads to. -/
def longEnding? (data : ByteArray) (locator : Nat) : Option Ending := do
  let locatorDisk ← number? data 4 (locator + 4)
  let stated ← number? data 8 (locator + 8)
  let disks ← number? data 4 (locator + 16)
  if 1 < disks then none
  (List.range' stated (locator - stated)).findSome?
    (longEndingAt? data stated locator locatorDisk)

/-- The end record at a place, or the long one before it. -/
def ending? (data : ByteArray) (pos : Nat) : Option Ending := do
  if (← number? data 4 pos) ≠ endSignature then none
  let total ← number? data 2 (pos + 10)
  let offset ← number? data 4 (pos + 16)
  let commentSize ← number? data 2 (pos + 20)
  if data.size < pos + 22 + commentSize then none
  if (total = 0xffff ∨ offset = elsewhere) ∧ 20 ≤ pos ∧
      number? data 4 (pos - 20) = some locatorSignature then
    longEnding? data (pos - 20)
  else shortEnding? data pos

/-- The directory that the end record at a place leads to. -/
def recordsAt? (data : ByteArray) (pos : Nat) : Option (List Record) := do
  let ending ← ending? data pos
  recordsFrom data ending.shift ending.count (ending.offset + ending.shift)

/-- The directory of the last end record at or before a place that leads to
one. -/
def recordsUpTo? (data : ByteArray) : Nat → Option (List Record)
  | 0 => recordsAt? data 0
  | pos + 1 => (recordsAt? data (pos + 1)).or (recordsUpTo? data pos)

/-- The directory of an archive. -/
def records? (data : ByteArray) : Option (List Record) := recordsUpTo? data data.size

end CartridgeAudit.Archive
