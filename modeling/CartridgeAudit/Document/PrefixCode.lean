/-
CartridgeAudit/Document/PrefixCode.lean

Prefix codes as binary trees.

A code is given by the length of the word of each symbol, and its words are
assigned canonically: shorter words first, and words of one length in the order
of their symbols.  So the nodes at a depth are, from left to right, the symbols
with words of that length and then the nodes that join two neighbours of the
next depth.  `nodesFrom` builds the tree by that rule, from the bottom up.

A code has to use its words up.  `isFull` says so by adding up the shares of all
words: a word of length `l` takes the share 2⁻ˡ.  A code with one symbol or none
may be sparse; the places that it leaves open are gaps of the tree.
-/

namespace CartridgeAudit

/-- A prefix code: a word leads from the root to a symbol. -/
inductive PrefixCode
  /-- no word leads here -/
  | gap
  | symbol (s : Nat)
  | branch (zero one : PrefixCode)

namespace PrefixCode

/-- The length of the longest word that a code may have. -/
def maxLength : Nat := 15

/-- What stands at an open place. A word that leaves a sparse code behind its
tenth bit is read as symbol zero, and one that leaves it before is refused. -/
def vacancy (depth : Nat) : PrefixCode := if depth ≤ 10 then .gap else .symbol 0

/-- Joins neighbours; a node that is left over gets an open place beside it. -/
def join (missing : PrefixCode) : List PrefixCode → List PrefixCode
  | [] => []
  | [x] => [.branch x missing]
  | x :: y :: rest => .branch x y :: join missing rest

/-- The nodes at a depth, from left to right; `n` is the number of depths from
there on. -/
def nodesFrom (lengths : List (Nat × Nat)) : Nat → Nat → List PrefixCode
  | 0, _ => []
  | n + 1, depth =>
      (lengths.filter (·.1 == depth)).map (fun e => .symbol e.2) ++
        join (vacancy (depth + 1)) (nodesFrom lengths n (depth + 1))

/-- Whether the words with given lengths take all the room there is. -/
def isFull (lengths : List Nat) : Bool :=
  let share (l : Nat) : Nat := if l = 0 then 0 else Nat.pow 2 (maxLength - l)
  lengths.foldl (fun total l => total + share l) 0 == Nat.pow 2 maxLength

/-- Whether at most one symbol has a word. -/
def isSparse (lengths : List Nat) : Bool := (lengths.filter (· != 0)).length ≤ 1

/-- The code in which each symbol has a word of the given length; zero means
that it has none. -/
def ofLengths (lengths : List Nat) : PrefixCode :=
  match join (vacancy 1) (nodesFrom lengths.zipIdx maxLength 1) with
  | root :: _ => root
  | [] => .branch .gap .gap

end PrefixCode

end CartridgeAudit
