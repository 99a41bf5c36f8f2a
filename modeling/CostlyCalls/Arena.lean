import CostlyCalls.Arena.Node
import CostlyCalls.Keyed
import CostlyCalls.Pass
import CostlyCalls.Path

/-!
# Arenas

An arena holds the nodes of one file in a fixed order, with an index of their positions by
identifier. `Arena.ofNodes` builds the index in a pass that stops at a repeated identifier, and then
looks up every reference in it.
-/

set_option autoImplicit false

namespace CostlyCalls

namespace Arena

inductive Fault
  | repeated (id : NodeId)
  | dangling (node child : NodeId)
  deriving DecidableEq, Repr

def Fault.message : Fault → String
  | .repeated id => "duplicate node id " ++ id.display
  | .dangling node child =>
    "node " ++ node.display ++ " refers to unknown node " ++ child.display

section Index

variable (nodes : List Node)

def register (index : List (NodeId × Fin nodes.length)) (position : Fin nodes.length) :
    Except Fault (List (NodeId × Fin nodes.length)) :=
  let id := (nodes.get position).id
  match index.lookup id with
  | some _ => .error (.repeated id)
  | none => .ok ((id, position) :: index)

def indexed : Except Fault (List (NodeId × Fin nodes.length)) :=
  (List.finRange nodes.length).foldlM (register nodes) []

end Index

def dangling? {size : Nat} (index : List (NodeId × Fin size)) (node : Node) : Option Fault :=
  (node.children.find? fun child => (index.lookup child).isNone).map (Fault.dangling node.id)

end Arena

structure Arena where
  file : Path
  nodes : List Node
  index : List (NodeId × Fin nodes.length)
  built : Arena.indexed nodes = .ok index
  resolved : nodes.findSome? (Arena.dangling? index) = none

namespace Arena

/-- A repeated identifier is reported before any dangling reference. -/
def ofNodes (file : Path) (nodes : List Node) : Except Fault Arena :=
  match hBuilt : indexed nodes with
  | .error fault => .error fault
  | .ok index =>
    match hResolved : nodes.findSome? (dangling? index) with
    | some fault => .error fault
    | none => .ok ⟨file, nodes, index, hBuilt, hResolved⟩

def get? (arena : Arena) (id : NodeId) : Option Node :=
  (arena.index.lookup id).map arena.nodes.get

section Pass

variable {nodes : List Node} {index next : List (NodeId × Fin nodes.length)}
  {taken : List (Fin nodes.length)} {position : Fin nodes.length} {fault : Fault}

def Covers (index : List (NodeId × Fin nodes.length)) (taken : List (Fin nodes.length)) : Prop :=
  Keyed.Positions (fun position => (nodes.get position).id) index taken

theorem register_eq_ok_iff (hIndex : Covers index taken) :
    register nodes index position = .ok next ↔
      (nodes.get position).id ∉ taken.map (fun position => (nodes.get position).id) ∧
        next = ((nodes.get position).id, position) :: index := by
  rw [← hIndex.lookup_eq_none_iff]
  unfold register
  dsimp only
  cases index.lookup (nodes.get position).id with
  | some existing => simp
  | none => simp [eq_comm]

theorem register_eq_error_iff (hIndex : Covers index taken) :
    register nodes index position = .error fault ↔
      (nodes.get position).id ∈ taken.map (fun position => (nodes.get position).id) ∧
        fault = .repeated (nodes.get position).id := by
  rw [← Decidable.not_not (p := _ ∈ _), ← hIndex.lookup_eq_none_iff]
  unfold register
  dsimp only
  cases index.lookup (nodes.get position).id with
  | some existing => simp [eq_comm]
  | none => simp

theorem Covers.register (hIndex : Covers index taken)
    (hStep : register nodes index position = .ok next) : Covers next (taken ++ [position]) := by
  obtain ⟨hNew, rfl⟩ := (register_eq_ok_iff hIndex).1 hStep
  exact Keyed.Positions.insert hIndex hNew

theorem covers_of_foldlM (hTaken : taken.foldlM (register nodes) [] = .ok index) :
    Covers index taken :=
  Pass.foldlM_keeps Covers.register Keyed.Positions.nil hTaken

theorem covers_of_indexed (hIndexed : indexed nodes = .ok index) :
    Covers index (List.finRange nodes.length) :=
  covers_of_foldlM hIndexed

end Pass

theorem covers (arena : Arena) : Covers arena.index (List.finRange arena.nodes.length) :=
  covers_of_indexed arena.built

theorem distinct (arena : Arena) : (arena.nodes.map Node.id).Nodup :=
  arena.covers.distinct_keys

/-- The index finds what a search of the nodes would find. -/
theorem get?_eq_find? (arena : Arena) (id : NodeId) :
    arena.get? id = arena.nodes.find? fun node => node.id == id :=
  arena.covers.map_get_lookup id

theorem get?_eq_some_iff {arena : Arena} {id : NodeId} {node : Node} :
    arena.get? id = some node ↔ node ∈ arena.nodes ∧ node.id = id := by
  rw [get?_eq_find?]
  exact Keyed.find?_key_eq_some_iff arena.distinct

end Arena

end CostlyCalls
