/-
CartridgeAudit/Project/Generation.lean

Generations of cartridges.

The name of a cartridge tells which generation of the platform's architecture
it belongs to.  The first part that occurs in the lower-cased name decides.
-/
import CartridgeAudit.Text.LetterCase

namespace CartridgeAudit

/-- The generations of the platform's architecture. -/
inductive Generation
  /-- modifications of the reference storefront -/
  | changes
  /-- the storefront reference architecture -/
  | sfra
  /-- script controllers -/
  | controllers
  /-- pipelines -/
  | pipelines
  /-- anything else -/
  | common
  deriving DecidableEq

/-- A text in lower case. -/
def lowered (s : String) : String := String.ofList (Text.lower s.toList)

/-- Whether `part` occurs in a text. -/
def occursIn (part s : String) : Bool := Text.contains s.toList part.toList

namespace Generation

/-- All generations. -/
def all : List Generation := [.changes, .sfra, .controllers, .pipelines, .common]

/-- The lower-case name. -/
def name : Generation → String
  | .changes => "changes"
  | .sfra => "sfra"
  | .controllers => "controllers"
  | .pipelines => "pipelines"
  | .common => "common"

/-- The place of a generation in their order. -/
def rank : Generation → Nat
  | .changes => 0
  | .sfra => 1
  | .controllers => 2
  | .pipelines => 3
  | .common => 4

/-- The generation of a lower-cased name. -/
def ofLowered (name : String) : Generation :=
  if occursIn "changes" name then .changes
  else if occursIn "sfra" name then .sfra
  else if occursIn "controllers" name || occursIn "_sg" name then .controllers
  else if occursIn "pipelines" name then .pipelines
  else .common

/-- The generation of a cartridge. -/
def classify (name : String) : Generation := ofLowered (lowered name)

end Generation

/-- The cartridges of a project, in lower case: sorted names for each generation that
has cartridges, in the order of the generations. -/
structure CartridgeSet where
  buckets : List (Generation × List String)
  deriving DecidableEq

namespace CartridgeSet

/-- Adds a name to the bucket of a generation; a bucket that is not there is made. -/
def push (g : Generation) (name : String) :
    List (Generation × List String) → List (Generation × List String)
  | [] => [(g, [name])]
  | (h, names) :: rest =>
      if g = h then (h, names ++ [name]) :: rest
      else if g.rank < h.rank then (g, [name]) :: (h, names) :: rest
      else (h, names) :: push g name rest

/-- Adds a name, in lower case, to the bucket of its generation. -/
def add (buckets : List (Generation × List String)) (name : String) :
    List (Generation × List String) :=
  push (Generation.classify (lowered name)) (lowered name) buckets

/-- Names in the order of their bytes. -/
def sortTexts (names : List String) : List String := names.mergeSort fun a b => !decide (b < a)

/-- The set of the given names, each as often as it is given. -/
def ofNames (names : List String) : CartridgeSet :=
  ⟨(names.foldl add []).map fun (g, names) => (g, sortTexts names)⟩

/-- The names of a generation, sorted. -/
def names (s : CartridgeSet) (g : Generation) : List String := (s.buckets.lookup g).getD []

/-- The number of cartridges. -/
def size (s : CartridgeSet) : Nat := s.buckets.foldl (fun n bucket => n + bucket.2.length) 0

/-- Whether there are no cartridges. -/
def isEmpty (s : CartridgeSet) : Bool := s.size == 0

end CartridgeSet

/-- The name of the directory that holds the cartridges. -/
def cartridgesDir : String := "cartridges"

/-- The cartridge that a relative path, written with slashes, lies in. -/
def cartridgeOf (relative : String) : Option String :=
  match Text.splitOn (· == '/') relative.toList with
  | top :: cartridge :: _ :: _ =>
      if String.ofList top = cartridgesDir then some (String.ofList cartridge) else none
  | _ => none

end CartridgeAudit
