/-
CartridgeAudit/Document/Bytes.lean

Numbers in binary data, and the checksum of data.

All reading of bytes goes through `byte?`, which tells where data ends.  Numbers
have their lowest byte first.
-/

namespace CartridgeAudit.Bytes

/-- A byte, if the data goes so far. -/
def byte? (data : ByteArray) (i : Nat) : Option UInt8 :=
  if h : i < data.size then some data[i] else none

/-- A number of `n` bytes, lowest first. -/
def number? (data : ByteArray) : Nat → Nat → Option Nat
  | 0, _ => some 0
  | n + 1, pos => do
      let b ← byte? data pos
      return b.toNat + 256 * (← number? data n (pos + 1))

/-- So many bytes, if the data has them. -/
def slice? (data : ByteArray) (pos size : Nat) : Option ByteArray :=
  if pos + size ≤ data.size then some (data.extract pos (pos + size)) else none

/-! ### The checksum -/

/-- One bit of the checksum's division. -/
def checksumBit (c : UInt32) : UInt32 :=
  if c &&& 1 = 1 then (c >>> 1) ^^^ 0xedb88320 else c >>> 1

/-- One byte of the checksum. -/
def checksumByte (c : UInt32) (b : UInt8) : UInt32 :=
  (List.range 8).foldl (fun c _ => checksumBit c) (c ^^^ b.toUInt32)

/-- The cyclic redundancy checksum of 32 bits. -/
def checksum (data : ByteArray) : Nat :=
  (data.data.toList.foldl checksumByte 0xffffffff ^^^ 0xffffffff).toNat

end CartridgeAudit.Bytes
