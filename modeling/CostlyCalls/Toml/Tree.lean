import CostlyCalls.Toml.Value

/-!
# Growing TOML tables

A document fills its tables piece by piece, and a table may be continued only where the standard
allows it. A tree therefore remembers how each of its tables came about: by its own header, on the
way to a deeper header, or through a dotted key.
-/

set_option autoImplicit false

namespace CostlyCalls.Toml

inductive Origin
  | header
  /-- On the way to the header of a deeper table. -/
  | passage
  | dotted
  deriving DecidableEq, Repr

inductive Tree
  | value (v : Value)
  | table (origin : Origin) (entries : List (String × Tree))
  /-- An array of tables, the latest first. -/
  | tables (latest : List (String × Tree)) (earlier : List (List (String × Tree)))
  deriving Inhabited

abbrev Entries := List (String × Tree)

namespace Entries

def set (key : String) (tree : Tree) : Entries → Entries
  | [] => [(key, tree)]
  | (k, t) :: rest => if k = key then (k, tree) :: rest else (k, t) :: set key tree rest

/-- Change the table that a header leads to. Tables on the way are made when they are missing; an
array of tables stands for its latest one. -/
def modify (change : Entries → Option Entries) : List String → Entries → Option Entries
  | [], entries => change entries
  | key :: keys, entries =>
    match entries.lookup key with
    | none => do
      return entries.set key (.table .passage (← modify change keys []))
    | some (.table origin inner) => do
      return entries.set key (.table origin (← modify change keys inner))
    | some (.tables latest earlier) => do
      return entries.set key (.tables (← modify change keys latest) earlier)
    | some (.value _) => none

def openTable (key : String) (entries : Entries) : Option Entries :=
  match entries.lookup key with
  | none => some (entries.set key (.table .header []))
  | some (.table .passage inner) => some (entries.set key (.table .header inner))
  | _ => none

def openItem (key : String) (entries : Entries) : Option Entries :=
  match entries.lookup key with
  | none => some (entries.set key (.tables [] []))
  | some (.tables latest earlier) => some (entries.set key (.tables [] (latest :: earlier)))
  | _ => none

/-- Assign a value to a key. The tables of a dotted key are made by dotted keys, and none of them
may have a header. -/
def assign (v : Value) : Origin → List String → Entries → Option Entries
  | _, [], _ => none
  | origin, [key], entries =>
    if origin = .passage then none
    else
      match entries.lookup key with
      | none => some (entries.set key (.value v))
      | some _ => none
  | _, key :: keys, entries =>
    match entries.lookup key with
    | none => do
      return entries.set key (.table .dotted (← assign v .dotted keys []))
    | some (.table .header _) => none
    | some (.table origin inner) => do
      return entries.set key (.table origin (← assign v origin keys inner))
    | some (.tables latest earlier) => do
      return entries.set key (.tables (← assign v .passage keys latest) earlier)
    | some (.value _) => none

end Entries

mutual

def Tree.finish : Tree → Value
  | .value v => v
  | .table _ entries => .table (finishEntries entries)
  | .tables latest earlier =>
    .array ((finishTables earlier).reverse ++ [.table (finishEntries latest)])

def finishEntries : List (String × Tree) → List (String × Value)
  | [] => []
  | (key, tree) :: rest => (key, tree.finish) :: finishEntries rest

def finishTables : List (List (String × Tree)) → List Value
  | [] => []
  | entries :: rest => .table (finishEntries entries) :: finishTables rest

end

end CostlyCalls.Toml
