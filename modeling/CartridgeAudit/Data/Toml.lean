/-
CartridgeAudit/Data/Toml.lean

TOML values, and the assembly of a document from its statements.

A document is a sequence of sections: the part before the first header, and
one part per header.  Each section puts its entries into a table.  Who may
still add to a table depends on how it came about (`Origin`):

* a table that a header on a longer path passed through may still get a header
  of its own, once, and dotted keys of its parent may pass through it too;
* a table that dotted keys passed through may get further dotted keys, and no
  header;
* a table that had its header is closed for both;
* in a list of tables the last one is open for headers and for dotted keys that
  pass through it, and may not get an entry of its own that way;
* a value is closed for everything, inline tables included.

The entries of a table keep their order.  A table that gets its header later
than a longer header moves to the end of its parent.
-/
import CartridgeAudit.Data.Datetime

namespace CartridgeAudit

/-- A TOML value. What a float denotes is never asked for. -/
inductive Toml
  | string (s : String)
  | integer (n : Int)
  | float
  | boolean (b : Bool)
  | datetime (d : Datetime)
  | array (items : List Toml)
  | table (entries : List (String × Toml))

namespace Toml

/-- The value of a key in a table. -/
def get? : Toml → String → Option Toml
  | .table entries, key => entries.lookup key
  | _, _ => none

/-! ### Tables under construction -/

/-- How a table came about. -/
inductive Origin
  /-- it has its header, or is the document itself -/
  | header
  /-- a longer header passed through -/
  | passed
  /-- dotted keys passed through -/
  | dotted
  deriving DecidableEq

/-- What a key stands for while the document is read. -/
inductive Node
  | value (v : Toml)
  | table (origin : Origin) (entries : List (String × Node))
  | tables (items : List (List (String × Node)))

/-- The entries of a table under construction. -/
abbrev Entries := List (String × Node)

/-- Puts an entry in the place of the one with its key, or at the end. -/
def put (key : String) (n : Node) : Entries → Entries
  | [] => [(key, n)]
  | (k, m) :: rest => if k = key then (k, n) :: rest else (k, m) :: put key n rest

/-- Adds an entry below a path of dotted keys. -/
def insert : List String → String → Toml → Entries → Option Entries
  | [], key, v, entries =>
      match entries.lookup key with
      | none => some (put key (.value v) entries)
      | some _ => none
  | step :: path, key, v, entries =>
      match entries.lookup step with
      | none => (insert path key v []).map fun es => put step (.table .dotted es) entries
      | some (.table .dotted inner) =>
          (insert path key v inner).map fun es => put step (.table .dotted es) entries
      | some (.table .passed inner) =>
          if path.isEmpty then none
          else (insert path key v inner).map fun es => put step (.table .passed es) entries
      | some (.tables items) =>
          match path.isEmpty, items.reverse with
          | false, last :: before =>
              (insert path key v last).map fun es =>
                put step (.tables (es :: before).reverse) entries
          | _, _ => none
      | some (.table .header _) | some (.value _) => none

/-- Adds all entries of a section. -/
def insertAll (additions : List (List String × String × Toml)) (entries : Entries) :
    Option Entries :=
  additions.foldlM (fun es (path, key, v) => insert path key v es) entries

/-- Changes the table at a path of header keys. In a list of tables the last
one is meant. -/
def descend (change : Entries → Option Entries) : List String → Entries → Option Entries
  | [], entries => change entries
  | step :: path, entries =>
      match entries.lookup step with
      | none => (descend change path []).map fun es => put step (.table .passed es) entries
      | some (.table origin inner) =>
          (descend change path inner).map fun es => put step (.table origin es) entries
      | some (.tables items) =>
          match items.reverse with
          | [] => none
          | last :: before =>
              (descend change path last).map fun es =>
                put step (.tables (es :: before).reverse) entries
      | some (.value _) => none

/-- A part of a document: its header, and its entries with their dotted paths. -/
inductive Section
  /-- the entries before the first header -/
  | top (entries : List (List String × String × Toml))
  /-- a table -/
  | table (path : List String) (key : String) (entries : List (List String × String × Toml))
  /-- one more table of a list -/
  | element (path : List String) (key : String) (entries : List (List String × String × Toml))

/-- Adds a section to the document. -/
def addSection (document : Entries) : Section → Option Entries
  | .top entries => insertAll entries document
  | .table path key entries =>
      descend (fun parent =>
        match parent.lookup key with
        | none => (insertAll entries []).map fun es => put key (.table .header es) parent
        | some (.table .passed inner) =>
            (insertAll entries inner).map fun es =>
              put key (.table .header es) (parent.filter fun e => e.1 != key)
        | some _ => none) path document
  | .element path key entries =>
      descend (fun parent =>
        match parent.lookup key with
        | none => (insertAll entries []).map fun es => put key (.tables [es]) parent
        | some (.tables items) =>
            (insertAll entries []).map fun es => put key (.tables (items ++ [es])) parent
        | some _ => none) path document

mutual

/-- The value of a finished node. -/
def Node.toToml : Node → Toml
  | .value v => v
  | .table _ entries => .table (entriesToToml entries)
  | .tables items => .array (itemsToToml items)

/-- The values of finished entries. -/
def entriesToToml : Entries → List (String × Toml)
  | [] => []
  | (key, n) :: rest => (key, n.toToml) :: entriesToToml rest

/-- The values of finished tables. -/
def itemsToToml : List Entries → List Toml
  | [] => []
  | es :: rest => .table (entriesToToml es) :: itemsToToml rest

end

/-- The table that a document denotes. -/
def assemble (sections : List Section) : Option Toml :=
  (sections.foldlM addSection []).map fun entries => .table (entriesToToml entries)

/-- The table that an inline table denotes. -/
def inlineTable (entries : List (List String × String × Toml)) : Option Toml :=
  (insertAll entries []).map fun es => .table (entriesToToml es)

end Toml

end CartridgeAudit
