/-
CartridgeAudit/Text/Blank.lean

Blank characters: the twenty-five characters with the Unicode property
`White_Space`.  Words are the maximal runs without blanks; a text is tidied by
putting its words on one line, one space apart.
-/
import CartridgeAudit.Text.Search

namespace CartridgeAudit.Text

/-- The code points with the property `White_Space`, as closed ranges. -/
def blankRanges : List (Nat × Nat) :=
  [(0x9, 0xd), (0x20, 0x20), (0x85, 0x85), (0xa0, 0xa0), (0x1680, 0x1680), (0x2000, 0x200a),
   (0x2028, 0x2029), (0x202f, 0x202f), (0x205f, 0x205f), (0x3000, 0x3000)]

/-- Whether a code point lies in one of the closed ranges. -/
def inRanges (ranges : List (Nat × Nat)) (n : Nat) : Bool :=
  ranges.any fun r => r.1 ≤ n && n ≤ r.2

/-- Whether a character is blank. -/
def isBlank (c : Char) : Bool := inRanges blankRanges c.toNat

/-- The words of a text: its maximal runs without blanks. -/
def words (t : Text) : List Text := (splitOn isBlank t).filter (!·.isEmpty)

/-- The words of a text, one space apart. -/
def tidy (t : Text) : Text := join [' '] (words t)

/-- Drops the blanks at the front. -/
def trimStart (t : Text) : Text := t.dropWhile isBlank

/-- Drops the blanks at the back. -/
def trimEnd (t : Text) : Text := (t.reverse.dropWhile isBlank).reverse

/-- Drops the blanks at both ends. -/
def trim (t : Text) : Text := trimEnd (trimStart t)

end CartridgeAudit.Text
