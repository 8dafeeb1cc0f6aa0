/-
CartridgeAudit/Rule/Closing.lean

Rules on what scripts have to close: readers and writers, and the iterators
that queries return.

Readers and writers are counted over the whole file: as many calls of `close`
on their names as there are bindings.  An iterator has to be closed in the
function that opens it, or anywhere in the file if no function is around.
-/
import CartridgeAudit.Pattern.Catalog
import CartridgeAudit.Pattern.Template
import CartridgeAudit.Rule.Basic
import CartridgeAudit.Rule.Selection
import CartridgeAudit.Script.Function

namespace CartridgeAudit.Rule

open Pattern

/-! ### Readers and writers -/

/-- A name and the byte offset where it is bound. -/
structure Binding where
  name : Text
  offset : Nat
  deriving DecidableEq

/-- The bindings of readers and writers, in order. -/
def openedBindings (t : Text) : List Binding :=
  (Catalog.readerWriterBinding.matchesIn t).filterMap fun m =>
    (m.group? 1).map fun (start, stop) => ⟨start.upTo stop, start.offset⟩

/-- The names on which `close` is called, in order. -/
def closedNames (names : List Text) (t : Text) : Except AuditError (List Text) := do
  let calls ← Template.closedVariable.build [(Template.vars, names)]
  return (calls.matchesIn t).map (·.groupText 1)

/-- The bindings that are left when every closed name takes away one binding of
that name, the first one left. -/
def unclosed : List Text → List Binding → List Binding
  | _, [] => []
  | closed, b :: bs =>
      if closed.contains b.name then unclosed (closed.erase b.name) bs else b :: unclosed closed bs

/-- The violation of a file whose bindings and calls of `close` differ in
number. -/
def closingViolation (first : Binding) (opened : List Binding) (closed : List Text) :
    Except AuditError Violation :=
  let left := unclosed closed opened
  let names := Text.join ", ".toList (left.map (·.name))
  Violation.new
    ((s!"{opened.length} opened, {closed.length} closed, not closed: ").toList ++ names)
    (left.headD first).offset

/-- Nothing if there are as many calls of `close` as bindings, or no bindings;
one violation otherwise. -/
def unclosedBindings (t : Text) : Except AuditError (List Violation) :=
  let opened := openedBindings t
  match opened with
  | [] => .ok []
  | first :: _ => do
      let closed ← closedNames (opened.map (·.name)) t
      if closed.length = opened.length then return []
      return [← closingViolation first opened closed]

/-- Readers and writers are closed. -/
def closeReadersWriters : Rule where
  code := "CL004"
  name := "close-readers-writers"
  description := "All readers and writers should be explicitly closed"
  severity := .error
  query := Selection.serverScripts
  check := onText unclosedBindings

/-! ### Iterators of queries -/

/-- A class with the methods that return an iterator which has to be closed. -/
structure QueryClass where
  name : Text
  methods : List Text
  deriving DecidableEq

/-- A class by its names. -/
def QueryClass.named (name : String) (methods : List String) : QueryClass :=
  ⟨name.toList, methods.map String.toList⟩

/-- The classes of the platform that return such iterators. -/
def platformClasses : List QueryClass :=
  [.named "CustomerMgr" ["queryProfiles", "searchProfiles"],
   .named "OrderMgr" ["queryOrders", "searchOrders"],
   .named "ProductMgr" ["queryAllSiteProducts", "queryProductsInCatalog",
     "queryAllSiteProductsSorted", "queryProductsInCatalogSorted"],
   .named "ProductListMgr" ["queryProductLists"],
   .named "SystemObjectMgr" ["querySystemObjects", "getAllSystemObjects"],
   .named "CustomObjectMgr" ["queryCustomObjects", "getAllCustomObjects"]]

/-- Whether a text goes on with the call of a method. -/
def continuesWithCall (t : Text) : Bool :=
  [".", "').", "\")."].any fun s => s.toList.isPrefixOf t

/-- The names through which a class is reached in a script: variables bound to
it, and its direct uses; each once. -/
def classAliases (t : Text) (name : Text) : Except AuditError (List Text) := do
  let bound ← Template.classVariable.build [(Template.vars, [name])]
  let direct ← Template.classDirect.build [(Template.vars, [name])]
  let holders := ((bound.matchesIn t).filter fun m => !continuesWithCall m.stop.after).map
    (·.groupText 1)
  return (holders ++ (direct.matchesIn t).map (·.groupText 1)).foldl
    (fun known name => if known.contains name then known else known ++ [name]) []

/-- The text in which an iterator opened at an offset has to be closed. -/
def closingScope (fs : List Script.Function) (t : Text) (offset : Nat) : Text :=
  match Script.enclosing fs offset with
  | some f => f.body
  | none => t

/-- The violation of a call, if its variable is never closed. The functions of
the script are asked for here, so a script without calls may be malformed. -/
def callViolation (functions : Except AuditError (List Script.Function)) (t : Text)
    (call : Match) : Except AuditError (Option Violation) := do
  let scope := closingScope (← functions) t call.start.offset
  let closing ← Template.closedVariable.build [(Template.vars, [call.groupText 1])]
  if closing.isMatch scope then return none
  return some (← call.violation)

/-- The calls of a class's methods whose iterator is never closed. -/
def unclosedOfClass (functions : Except AuditError (List Script.Function)) (t : Text)
    (k : QueryClass) : Except AuditError (List Violation) := do
  let aliases ← classAliases t k.name
  if aliases.isEmpty then return []
  let calls ← Template.methodCallSaved.build
    [(Template.vars, aliases), (Template.methods, k.methods)]
  return (← (calls.matchesIn t).mapM (callViolation functions t)).filterMap id

/-- The calls whose iterator is never closed, class by class. -/
def unclosedIterators (classes : List QueryClass) (t : Text) :
    Except AuditError (List Violation) := do
  let functions := Script.functions t
  return (← classes.mapM (unclosedOfClass functions t)).flatten

/-- Iterators that queries return are closed. -/
def closeIterators (classes : List QueryClass) : Rule where
  code := "CL005"
  name := "close-seekable-iterators"
  description := "All SeekableIterators should be explicitly closed"
  severity := .error
  query := Selection.serverScripts
  check := onText (unclosedIterators classes)

end CartridgeAudit.Rule
