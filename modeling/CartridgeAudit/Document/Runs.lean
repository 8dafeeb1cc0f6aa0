/-
CartridgeAudit/Document/Runs.lean

The text of a word-processor document.

Text stands in runs, which open with `<w:t`.  What follows the end of such a
tag up to the next `<` is taken, with a space behind it.  Other tags whose name
begins in the same way count as well; they hold no text of their own.
-/
import CartridgeAudit.Text.Search

namespace CartridgeAudit.Document

/-- What opens a run. -/
def runStart : Text := "<w:t".toList

/-- The text behind the end of the tag, up to the next one; nothing if the tag
does not end. -/
def runText (piece : Text) : Text :=
  match Text.cutAt '>' piece with
  | none => []
  | some (_, rest) => rest.takeWhile (· != '<') ++ [' ']

/-- The runs of a document, each with a space behind it. -/
def textRuns (xml : Text) : Text := ((Text.splitBy runStart 0 xml).drop 1).flatMap runText

end CartridgeAudit.Document
