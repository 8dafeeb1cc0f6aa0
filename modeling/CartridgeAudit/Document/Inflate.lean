/-
CartridgeAudit/Document/Inflate.lean

Unpacking DEFLATE data.

Data is read bit by bit, the lowest bit of a byte first.  A block is stored as
it is, or coded with prefix codes that are fixed or described at its front.
What follows the last block is not looked at.

Data that ends too early is told apart from data that says something
impossible, by the fault that is met first.  Loops carry fuel: every round
reads at least one bit, so the number of bits is always enough.
-/
import CartridgeAudit.Document.Bytes
import CartridgeAudit.Document.PrefixCode

namespace CartridgeAudit.Inflate

/-- Why data cannot be unpacked. -/
inductive Fault
  /-- it ends before its last block does -/
  | incomplete
  /-- it contradicts the format -/
  | corrupt
  deriving DecidableEq

/-- A number that was read, and the position behind it. -/
abbrev Reading := Except Fault (Nat × Nat)

/-! ### Bits -/

/-- A bit. -/
def bit (data : ByteArray) (pos : Nat) : Except Fault Nat :=
  match Bytes.byte? data (pos / 8) with
  | some b => .ok (b.toNat >>> (pos % 8) % 2)
  | none => .error .incomplete

/-- A number of `n` bits, lowest first. -/
def bits (data : ByteArray) : Nat → Nat → Reading
  | 0, pos => .ok (0, pos)
  | n + 1, pos => do
      let b ← bit data pos
      let (rest, pos) ← bits data n (pos + 1)
      return (b + 2 * rest, pos)

/-- The next symbol. -/
def decode (data : ByteArray) : PrefixCode → Nat → Reading
  | .gap, _ => .error .corrupt
  | .symbol s, pos => .ok (s, pos)
  | .branch zero one, pos => do
      if (← bit data pos) = 0 then decode data zero (pos + 1) else decode data one (pos + 1)

/-! ### Tables -/

/-- The fixed code for literals and lengths. -/
def fixedLiterals : PrefixCode :=
  .ofLengths (List.replicate 144 8 ++ List.replicate 112 9 ++ List.replicate 24 7 ++
    List.replicate 8 8)

/-- The fixed code for distances. -/
def fixedDistances : PrefixCode := .ofLengths (List.replicate 32 5)

/-- The base and the number of extra bits of each length symbol. -/
def lengthTable : Array (Nat × Nat) :=
  #[(3, 0), (4, 0), (5, 0), (6, 0), (7, 0), (8, 0), (9, 0), (10, 0), (11, 1), (13, 1), (15, 1),
    (17, 1), (19, 2), (23, 2), (27, 2), (31, 2), (35, 3), (43, 3), (51, 3), (59, 3), (67, 4),
    (83, 4), (99, 4), (115, 4), (131, 5), (163, 5), (195, 5), (227, 5), (258, 0)]

/-- The base and the number of extra bits of each distance symbol. -/
def distanceTable : Array (Nat × Nat) :=
  #[(1, 0), (2, 0), (3, 0), (4, 0), (5, 1), (7, 1), (9, 2), (13, 2), (17, 3), (25, 3), (33, 4),
    (49, 4), (65, 5), (97, 5), (129, 6), (193, 6), (257, 7), (385, 7), (513, 8), (769, 8),
    (1025, 9), (1537, 9), (2049, 10), (3073, 10), (4097, 11), (6145, 11), (8193, 12),
    (12289, 12), (16385, 13), (24577, 13)]

/-- A number from a table, with its extra bits. A symbol that the table does
not have is refused. -/
def extended (table : Array (Nat × Nat)) (data : ByteArray) (symbol pos : Nat) : Reading :=
  match table[symbol]? with
  | none => .error .corrupt
  | some (base, extra) => do
      let (more, pos) ← bits data extra pos
      return (base + more, pos)

/-! ### Blocks -/

/-- Repeats what was written `distance` bytes ago. Zeros stand before the
beginning. -/
def copy (distance : Nat) : Nat → ByteArray → ByteArray
  | 0, out => out
  | n + 1, out =>
      let b := if distance ≤ out.size then (Bytes.byte? out (out.size - distance)).getD 0 else 0
      copy distance n (out.push b)

/-- The coded part of a block. -/
def coded (data : ByteArray) (literals distances : PrefixCode) :
    Nat → Nat → ByteArray → Except Fault (Nat × ByteArray)
  | 0, _, _ => .error .incomplete
  | fuel + 1, pos, out => do
      let (symbol, pos) ← decode data literals pos
      if symbol < 256 then coded data literals distances fuel pos (out.push symbol.toUInt8)
      else if symbol = 256 then return (pos, out)
      else
        let (length, pos) ← extended lengthTable data (symbol - 257) pos
        let (symbol, pos) ← decode data distances pos
        let (distance, pos) ← extended distanceTable data symbol pos
        coded data literals distances fuel pos (copy distance length out)

/-- A stored block: its length, the complement of its length, its bytes. -/
def stored (data : ByteArray) (pos : Nat) (out : ByteArray) : Except Fault (Nat × ByteArray) := do
  let start := (pos + 7) / 8
  let (length, _) ← bits data 16 (8 * start)
  let (complement, _) ← bits data 16 (8 * (start + 2))
  if length + complement ≠ 0xffff then throw .corrupt
  match Bytes.slice? data (start + 4) length with
  | some bytes => return (8 * (start + 4 + length), out ++ bytes)
  | none => throw .incomplete

/-- The order in which the lengths of the code for lengths are given. -/
def lengthOrder : List Nat := [16, 17, 18, 0, 8, 7, 9, 6, 10, 5, 11, 4, 12, 3, 13, 2, 14, 1, 15]

/-- So many numbers of three bits. -/
def triples (data : ByteArray) : Nat → Nat → Except Fault (List Nat × Nat)
  | 0, pos => .ok ([], pos)
  | n + 1, pos => do
      let (x, pos) ← bits data 3 pos
      let (xs, pos) ← triples data n pos
      return (x :: xs, pos)

/-- The lengths of two codes, `total` in all; `done` has those read so far, the
latest first. -/
def lengths (data : ByteArray) (code : PrefixCode) (total : Nat) :
    Nat → Nat → List Nat → Except Fault (List Nat × Nat)
  | 0, _, _ => .error .corrupt
  | fuel + 1, pos, done =>
      if done.length = total then .ok (done.reverse, pos)
      else if total < done.length then .error .corrupt
      else do
        let (symbol, pos) ← decode data code pos
        if symbol < 16 then lengths data code total fuel pos (symbol :: done)
        else if symbol = 16 then
          match done.head? with
          | none => throw .corrupt
          | some previous =>
              let (n, pos) ← bits data 2 pos
              lengths data code total fuel pos (List.replicate (n + 3) previous ++ done)
        else if symbol = 17 then
          let (n, pos) ← bits data 3 pos
          lengths data code total fuel pos (List.replicate (n + 3) 0 ++ done)
        else
          let (n, pos) ← bits data 7 pos
          lengths data code total fuel pos (List.replicate (n + 11) 0 ++ done)

/-- A code with given lengths; one that is not full has to be sparse. -/
def codeOf (lengths : List Nat) : Except Fault PrefixCode :=
  if PrefixCode.isFull lengths || PrefixCode.isSparse lengths then .ok (.ofLengths lengths)
  else .error .corrupt

/-- The codes described at the front of a block. The code for their lengths has
to be full. -/
def described (data : ByteArray) (pos : Nat) : Except Fault (PrefixCode × PrefixCode × Nat) := do
  let (literals, pos) ← bits data 5 pos
  let (distances, pos) ← bits data 5 pos
  let (used, pos) ← bits data 4 pos
  if 286 < literals + 257 ∨ 30 < distances + 1 then throw .corrupt
  let (given, pos) ← triples data (used + 4) pos
  let table := lengthOrder.zip given
  let lengthLengths := (List.range 19).map fun i => (table.lookup i).getD 0
  if !PrefixCode.isFull lengthLengths then throw .corrupt
  let total := literals + 257 + distances + 1
  let (ls, pos) ← lengths data (.ofLengths lengthLengths) total (total + 1) pos []
  return (← codeOf (ls.take (literals + 257)), ← codeOf (ls.drop (literals + 257)), pos)

/-- One block after the other, up to the last. -/
def blocks (data : ByteArray) : Nat → Nat → ByteArray → Except Fault ByteArray
  | 0, _, _ => .error .incomplete
  | fuel + 1, pos, out => do
      let (last, pos) ← bits data 1 pos
      let (kind, pos) ← bits data 2 pos
      let budget := 8 * data.size + 1
      let (pos, out) ←
        if kind = 0 then stored data pos out
        else if kind = 1 then coded data fixedLiterals fixedDistances budget pos out
        else if kind = 2 then do
          let (literals, distances, pos) ← described data pos
          coded data literals distances budget pos out
        else .error .corrupt
      if last = 1 then return out else blocks data fuel pos out

/-- What compressed data stands for. -/
def inflate (data : ByteArray) : Except Fault ByteArray := blocks data (8 * data.size + 1) 0 .empty

end CartridgeAudit.Inflate
