/-
CartridgeAudit/Pattern/Regex.lean

Regular expressions over characters.

An expression is built from character classes, runs of one class, sequence,
ordered choice, repetition, numbered captures and assertions about a place.
Choice and repetition are *ordered*: which of several possible matches counts
is settled by the order in which `Pattern/Match.lean` lists them.

Expressions read from left to right: `r ++ s` is a sequence, `r ||| s` prefers
`r`, and `lit "…"` stands for a fixed text.
-/
import CartridgeAudit.Text.Word

namespace CartridgeAudit.Pattern

/-! ### Character classes -/

/-- What a class lists: a character, a range, a named class or its complement,
or a letter in either case. -/
inductive ClassItem
  | one (c : Char)
  | range (lo hi : Char)
  | digit
  | notDigit
  | blank
  | notBlank
  | word
  | notWord
  | caseless (c : Char)
  deriving DecidableEq

/-- Simple case folding relates an ASCII letter to its other case; beside these
it relates `s` to the long s and `k` to the Kelvin sign. -/
def sameLetter (c d : Char) : Bool :=
  c.toLower == d.toLower || (c.toLower == 's' && d == '\u017f') ||
    (c.toLower == 'k' && d == '\u212a')

/-- Whether a listed item covers a character. -/
def ClassItem.covers : ClassItem → Char → Bool
  | .one c, d => c == d
  | .range lo hi, d => lo ≤ d && d ≤ hi
  | .digit, d => Text.isDigit d
  | .notDigit, d => !Text.isDigit d
  | .blank, d => Text.isBlank d
  | .notBlank, d => !Text.isBlank d
  | .word, d => Text.isWord d
  | .notWord, d => !Text.isWord d
  | .caseless c, d => sameLetter c d

/-- A set of characters: those that some item covers, or those that none does. -/
structure CharClass where
  negated : Bool
  items : List ClassItem
  deriving DecidableEq

/-- Whether a class has a character. -/
def CharClass.contains (k : CharClass) (c : Char) : Bool :=
  k.items.any (·.covers c) != k.negated

namespace CharClass

/-- The class of one character. -/
def one (c : Char) : CharClass := ⟨false, [.one c]⟩

/-- The characters of a text. -/
def anyOf (s : String) : CharClass := ⟨false, s.toList.map .one⟩

/-- All characters but those of a text. -/
def noneOf (s : String) : CharClass := ⟨true, s.toList.map .one⟩

/-- The decimal digits. -/
def digit : CharClass := ⟨false, [.digit]⟩

/-- All characters but the decimal digits. -/
def notDigit : CharClass := ⟨false, [.notDigit]⟩

/-- The blank characters. -/
def blank : CharClass := ⟨false, [.blank]⟩

/-- All characters but the blank ones. -/
def notBlank : CharClass := ⟨false, [.notBlank]⟩

/-- The word characters. -/
def word : CharClass := ⟨false, [.word]⟩

/-- All characters but the word characters. -/
def notWord : CharClass := ⟨false, [.notWord]⟩

/-- All characters but the newline. -/
def inLine : CharClass := ⟨true, [.one '\n']⟩

end CharClass

/-! ### Expressions -/

/-- Assertions about a place: the ends of the text, the ends of a line, and the
boundary between a word character and any other. -/
inductive Anchor
  | textStart
  | textEnd
  | lineStart
  | lineEnd
  | wordBoundary
  deriving DecidableEq

/-- Whether there is a word character at the front. -/
def headIsWord : Text → Bool
  | [] => false
  | c :: _ => Text.isWord c

/-- Whether an assertion holds at a place. -/
def Anchor.holds : Anchor → Cursor → Bool
  | .textStart, c => c.before.isEmpty
  | .textEnd, c => c.after.isEmpty
  | .lineStart, c => c.before.isEmpty || c.before.head? == some '\n'
  | .lineEnd, c => c.after.isEmpty || c.after.head? == some '\n'
  | .wordBoundary, c => headIsWord c.before != headIsWord c.after

/-- Regular expressions with ordered choice and numbered captures. -/
inductive Regex
  /-- matches the empty text -/
  | empty
  /-- one character of a class -/
  | single (k : CharClass)
  /-- a run of characters of a class, as long as possible, or as short as
  possible if `lazy` -/
  | many (k : CharClass) (lazy : Bool)
  | seq (r s : Regex)
  /-- `r` if possible, else `s` -/
  | alt (r s : Regex)
  /-- as many rounds as possible -/
  | star (r : Regex)
  | capture (index : Nat) (r : Regex)
  | assert (a : Anchor)
  deriving DecidableEq

namespace Regex

instance : Append Regex := ⟨.seq⟩

instance : OrOp Regex := ⟨.alt⟩

/-- The expressions one after the other. -/
def sequence : List Regex → Regex
  | [] => .empty
  | [r] => r
  | r :: rs => .seq r (sequence rs)

/-- The expressions as alternatives, the first preferred. -/
def choice : List Regex → Regex
  | [] => .single ⟨false, []⟩
  | [r] => r
  | r :: rs => .alt r (choice rs)

/-- A fixed text. -/
def literal (t : Text) : Regex := sequence (t.map fun c => .single (.one c))

/-- A fixed text. -/
def lit (s : String) : Regex := literal s.toList

/-- A fixed text in any mixture of cases. -/
def caseless (s : String) : Regex :=
  sequence (s.toList.map fun c => .single ⟨false, [.caseless c]⟩)

/-- A run of a class, as long as possible. -/
def run (k : CharClass) : Regex := .many k false

/-- A non-empty run of a class, as long as possible. -/
def run1 (k : CharClass) : Regex := .seq (.single k) (.many k false)

/-- `r` if possible, else nothing. -/
def maybe (r : Regex) : Regex := .alt r .empty

/-- Up to `n` times `r`, as often as possible. -/
def atMost : Nat → Regex → Regex
  | 0, _ => .empty
  | n + 1, r => maybe (.seq r (atMost n r))

/-- Exactly `n` times `r`. -/
def exactly : Nat → Regex → Regex
  | 0, _ => .empty
  | 1, r => r
  | n + 1, r => .seq r (exactly n r)

/-- From `lo` to `hi` times `r`, as often as possible. -/
def between (lo hi : Nat) (r : Regex) : Regex :=
  if hi ≤ lo then exactly lo r
  else if lo = 0 then atMost hi r
  else .seq (exactly lo r) (atMost (hi - lo) r)

/-- A run of any characters within a line, as long as possible. -/
def restOfLine : Regex := run .inLine

/-- A word boundary. -/
def boundary : Regex := .assert .wordBoundary

/-- The greatest capture number in an expression. -/
def captureCount : Regex → Nat
  | .empty | .single _ | .many _ _ | .assert _ => 0
  | .seq r s | .alt r s => max r.captureCount s.captureCount
  | .star r => r.captureCount
  | .capture i r => max i r.captureCount

end Regex

end CartridgeAudit.Pattern
