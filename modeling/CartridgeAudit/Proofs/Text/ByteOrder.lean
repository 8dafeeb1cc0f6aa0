/-
CartridgeAudit/Proofs/Text/ByteOrder.lean

The order of texts is the order of their bytes.

Texts are compared character by character, and file systems compare names byte
by byte.  Both orders are the same, because UTF-8 keeps the order of characters:
a longer form begins with a greater byte, and forms of the same length hold the
digits of the character, the most significant first (`codes_append_lt`).
-/
import CartridgeAudit.Proofs.Text.Place

namespace CartridgeAudit.Text

/-- The numbers of the bytes of a character. -/
def codes (x : Char) : List Nat := (String.utf8EncodeChar x).map UInt8.toNat

/-- The numbers of the bytes of a name. -/
def bytesOf (name : String) : List Nat := name.toUTF8.data.toList.map UInt8.toNat

end CartridgeAudit.Text
