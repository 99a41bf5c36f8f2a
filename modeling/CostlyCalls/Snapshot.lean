import CostlyCalls.Arena
import CostlyCalls.Model
import CostlyCalls.TypeTable.Closure

/-!
# Snapshots

A snapshot is what a front end exports about one file: the declared supertypes of named types, and
the nodes with their symbols and static types. `Snapshot.load` divides it into the arena that an
engine visits and the model that it asks.
-/

set_option autoImplicit false

namespace CostlyCalls

structure SnapshotNode where
  node : Node
  symbol : Option Symbol := none
  type : Option StaticType := none
  deriving DecidableEq, Repr

structure Snapshot where
  file : Path
  types : TypeTable := .empty
  nodes : List SnapshotNode := []

namespace Snapshot

structure Annotations where
  symbols : List (NodeId × Symbol) := []
  types : List (NodeId × StaticType) := []

/-- A node that repeats an identifier overwrites what an earlier one says. -/
def Annotations.add (annotations : Annotations) (n : SnapshotNode) : Annotations where
  symbols := Keyed.overwrite n.node.id n.symbol annotations.symbols
  types := Keyed.overwrite n.node.id n.type annotations.types

def annotations (nodes : List SnapshotNode) : Annotations := nodes.foldl Annotations.add {}

def modelOf (nodes : List SnapshotNode) (types : TypeTable) : Model :=
  let annotations := annotations nodes
  { symbol? := fun id => annotations.symbols.lookup id
    type? := fun id => annotations.types.lookup id
    interfaces := types.interfacesOf }

def model (snapshot : Snapshot) : Model := modelOf snapshot.nodes snapshot.types

def load (snapshot : Snapshot) : Except Arena.Fault (Arena × Model) := do
  let arena ← Arena.ofNodes snapshot.file (snapshot.nodes.map SnapshotNode.node)
  return (arena, snapshot.model)

theorem symbols_annotations (nodes : List SnapshotNode) :
    (annotations nodes).symbols =
      nodes.foldl (fun table n => Keyed.overwrite n.node.id n.symbol table) [] :=
  (List.foldl_hom Annotations.symbols fun _ _ => rfl).symm

theorem types_annotations (nodes : List SnapshotNode) :
    (annotations nodes).types =
      nodes.foldl (fun table n => Keyed.overwrite n.node.id n.type table) [] :=
  (List.foldl_hom Annotations.types fun _ _ => rfl).symm

section Search

variable {nodes : List SnapshotNode} (hDistinct : (nodes.map fun n => n.node.id).Nodup)
  (types : TypeTable) (id : NodeId)
include hDistinct

theorem symbol?_modelOf : (modelOf nodes types).symbol? id =
    (nodes.find? fun n => n.node.id == id).bind SnapshotNode.symbol := by
  change (annotations nodes).symbols.lookup id = _
  rw [symbols_annotations]
  exact Keyed.lookup_fill hDistinct id

theorem type?_modelOf : (modelOf nodes types).type? id =
    (nodes.find? fun n => n.node.id == id).bind SnapshotNode.type := by
  change (annotations nodes).types.lookup id = _
  rw [types_annotations]
  exact Keyed.lookup_fill hDistinct id

end Search

end Snapshot

end CostlyCalls
