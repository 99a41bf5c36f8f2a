import CostlyCalls.Snapshot

/-!
# Loading snapshots

A snapshot is loaded if and only if its identifiers are pairwise different and its references lead
to nodes. The arena then holds the nodes in their order, and the model answers with what is written
on them. A snapshot that is not loaded has one fault, which depends on the order of its nodes and of
their references: `Snapshot.Refused` says which one without reference to the search for it.
-/

set_option autoImplicit false

namespace CostlyCalls

namespace Shape

inductive RefersTo : Shape → NodeId → Prop
  | callee (callee : NodeId) (arguments : List NodeId) :
    RefersTo (.invocation callee arguments) callee
  | argument (callee : NodeId) {arguments : List NodeId} {id : NodeId} (hId : id ∈ arguments) :
    RefersTo (.invocation callee arguments) id
  | receiver (receiver : NodeId) (name : String) : RefersTo (.memberAccess receiver name) receiver

theorem refersTo_iff {shape : Shape} {id : NodeId} : shape.RefersTo id ↔ id ∈ shape.children := by
  constructor
  · rintro (⟨_, _⟩ | ⟨_, hId⟩ | ⟨_, _⟩)
    · exact List.mem_cons_self
    · exact List.mem_cons_of_mem _ hId
    · exact List.mem_singleton_self _
  · intro hId
    cases shape with
    | invocation callee arguments =>
      rcases List.mem_cons.1 hId with rfl | hId
      · exact .callee id arguments
      · exact .argument callee hId
    | memberAccess receiver name =>
      rw [List.mem_singleton.1 hId]
      exact .receiver receiver name
    | _ => cases hId

/-- The first reference of a shape that is none of the identifiers: its callee, and if that is one
of them, an argument behind arguments that are. -/
inductive FirstMissing (ids : List NodeId) : Shape → NodeId → Prop
  | callee {callee : NodeId} (arguments : List NodeId) (hCallee : callee ∉ ids) :
    FirstMissing ids (.invocation callee arguments) callee
  | argument {callee id : NodeId} {before : List NodeId} (after : List NodeId)
    (hCallee : callee ∈ ids) (hBefore : ∀ other ∈ before, other ∈ ids) (hId : id ∉ ids) :
    FirstMissing ids (.invocation callee (before ++ id :: after)) id
  | receiver {receiver : NodeId} (name : String) (hReceiver : receiver ∉ ids) :
    FirstMissing ids (.memberAccess receiver name) receiver

theorem firstMissing_iff {ids : List NodeId} {shape : Shape} {id : NodeId} :
    shape.FirstMissing ids id ↔ shape.children.find? (fun child => child ∉ ids) = some id := by
  simp only [List.find?_eq_some_iff_append, decide_eq_true_eq, Bool.not_eq_true',
    decide_eq_false_iff_not, Classical.not_not]
  constructor
  · rintro (⟨arguments, hCallee⟩ | ⟨after, hCallee, hBefore, hId⟩ | ⟨name, hReceiver⟩)
    · exact ⟨hCallee, [], arguments, rfl, by simp⟩
    · exact ⟨hId, _ :: _, after, rfl, List.forall_mem_cons.2 ⟨hCallee, hBefore⟩⟩
    · exact ⟨hReceiver, [], [], rfl, by simp⟩
  · rintro ⟨hId, before, after, hChildren, hBefore⟩
    cases shape with
    | invocation callee arguments =>
      rcases List.cons_eq_append_iff.1 hChildren with ⟨rfl, hHead⟩ | ⟨others, rfl, rfl⟩
      · cases hHead
        exact .callee _ hId
      · obtain ⟨hCallee, hOthers⟩ := List.forall_mem_cons.1 hBefore
        exact .argument after hCallee hOthers hId
    | memberAccess receiver name =>
      rcases List.cons_eq_append_iff.1 hChildren with ⟨rfl, hHead⟩ | ⟨others, rfl, hNil⟩
      · cases hHead
        exact .receiver name hId
      · cases others <;> cases hNil
    | _ => cases before <;> cases hChildren

end Shape

namespace Arena

theorem ext_nodes {a b : Arena} (hFile : a.file = b.file) (hNodes : a.nodes = b.nodes) :
    a = b := by
  obtain ⟨file, nodes, index, hBuilt, hResolved⟩ := a
  obtain ⟨_, _, other, hOther, _⟩ := b
  cases hFile
  cases hNodes
  cases hBuilt.symm.trans hOther
  rfl

section Index

variable {nodes : List Node} {index : List (NodeId × Fin nodes.length)} {fault : Fault}

theorem exists_foldlM_register {taken : List (Fin nodes.length)}
    (hDistinct : (taken.map fun position => (nodes.get position).id).Nodup) :
    ∃ index, taken.foldlM (register nodes) [] = .ok index := by
  cases hPass : taken.foldlM (register nodes) [] with
  | ok index => exact ⟨index, rfl⟩
  | error fault =>
    obtain ⟨before, position, after, reached, rfl, hBefore, hFault⟩ :=
      Pass.foldlM_eq_error_iff.1 hPass
    obtain ⟨hOld, -⟩ := (register_eq_error_iff (covers_of_foldlM hBefore)).1 hFault
    rw [List.map_append, List.nodup_append] at hDistinct
    exact absurd rfl (hDistinct.2.2 _ hOld _ List.mem_cons_self)

theorem indexed_eq_error_iff :
    indexed nodes = .error fault ↔
      ∃ before id after, nodes.map Node.id = before ++ id :: after ∧ before.Nodup ∧
        id ∈ before ∧ fault = .repeated id := by
  rw [indexed, Pass.foldlM_eq_error_iff, ← Keyed.map_key_finRange]
  constructor
  · rintro ⟨before, position, after, reached, hSplit, hBefore, hFault⟩
    have hIndex := covers_of_foldlM hBefore
    obtain ⟨hOld, rfl⟩ := (register_eq_error_iff hIndex).1 hFault
    refine ⟨_, _, after.map fun position => (nodes.get position).id, ?_, hIndex.distinct, hOld, rfl⟩
    rw [hSplit, List.map_append, List.map_cons]
  · rintro ⟨before, id, after, hIds, hDistinct, hOld, rfl⟩
    obtain ⟨taken, rest, hSplit, rfl, hRest⟩ := List.map_eq_append_iff.1 hIds
    obtain ⟨position, later, rfl, rfl, -⟩ := List.map_eq_cons_iff.1 hRest
    obtain ⟨reached, hReached⟩ := exists_foldlM_register hDistinct
    exact ⟨taken, position, later, reached, hSplit, hReached,
      (register_eq_error_iff (covers_of_foldlM hReached)).2 ⟨hOld, rfl⟩⟩

variable (hIndexed : indexed nodes = .ok index)
include hIndexed

theorem nodup_of_indexed : (nodes.map Node.id).Nodup :=
  (covers_of_indexed hIndexed).distinct_keys

theorem isNone_lookup_iff {id : NodeId} :
    (index.lookup id).isNone = true ↔ id ∉ nodes.map Node.id := by
  rw [Option.isNone_iff_eq_none, (covers_of_indexed hIndexed).lookup_eq_none_iff,
    Keyed.map_key_finRange]

theorem dangling?_eq_none_iff {node : Node} :
    dangling? index node = none ↔ ∀ child ∈ node.children, child ∈ nodes.map Node.id := by
  simp only [dangling?, Option.map_eq_none_iff, List.find?_eq_none, isNone_lookup_iff hIndexed,
    Classical.not_not]

theorem dangling?_eq_some_iff {node : Node} :
    dangling? index node = some fault ↔
      ∃ child, node.shape.FirstMissing (nodes.map Node.id) child ∧
        fault = .dangling node.id child := by
  have hMissing : (fun child => (index.lookup child).isNone) =
      fun child => decide (child ∉ nodes.map Node.id) := by
    funext child
    rw [Bool.eq_iff_iff, isNone_lookup_iff hIndexed, decide_eq_true_iff]
  simp only [dangling?, hMissing, Option.map_eq_some_iff, Shape.firstMissing_iff, Node.children,
    eq_comm (a := fault)]

end Index

theorem closed (arena : Arena) :
    ∀ node ∈ arena.nodes, ∀ child ∈ node.children, child ∈ arena.nodes.map Node.id := by
  intro node hNode
  have hNone := List.findSome?_eq_none_iff.1 arena.resolved node hNode
  exact (dangling?_eq_none_iff arena.built).1 hNone

theorem ofNodes_eq_ok_iff {file : Path} {nodes : List Node} {arena : Arena} :
    ofNodes file nodes = .ok arena ↔ arena.file = file ∧ arena.nodes = nodes := by
  unfold ofNodes
  split
  · next fault hFault =>
    simp only [reduceCtorEq, false_iff, not_and]
    rintro - rfl
    cases hFault.symm.trans arena.built
  · next index hIndex =>
    split
    · next fault hFault =>
      simp only [reduceCtorEq, false_iff, not_and]
      rintro - rfl
      cases hIndex.symm.trans arena.built
      cases hFault.symm.trans arena.resolved
    · next hResolved =>
      rw [Except.ok.injEq]
      constructor
      · rintro rfl
        exact ⟨rfl, rfl⟩
      · rintro ⟨hFile, hNodes⟩
        exact ext_nodes hFile.symm hNodes.symm

theorem ofNodes_eq_error_iff {file : Path} {nodes : List Node} {fault : Fault} :
    ofNodes file nodes = .error fault ↔
      indexed nodes = .error fault ∨
        ∃ index, indexed nodes = .ok index ∧ nodes.findSome? (dangling? index) = some fault := by
  unfold ofNodes
  split
  · next found hFault => simp [hFault]
  · next index hIndex =>
    split
    · next found hFault => simp [hIndex, hFault]
    · next hResolved => simp [hIndex, hResolved]

theorem exists_of_closed (file : Path) {nodes : List Node} (hDistinct : (nodes.map Node.id).Nodup)
    (hClosed : ∀ node ∈ nodes, ∀ child ∈ node.children, child ∈ nodes.map Node.id) :
    ∃ arena : Arena, arena.file = file ∧ arena.nodes = nodes := by
  rw [← Keyed.map_key_finRange] at hDistinct
  obtain ⟨index, hIndex⟩ := exists_foldlM_register hDistinct
  refine ⟨⟨file, nodes, index, hIndex, List.findSome?_eq_none_iff.2 ?_⟩, rfl, rfl⟩
  intro node hNode
  exact (dangling?_eq_none_iff hIndex).2 (hClosed node hNode)

end Arena

namespace Snapshot

def ids (snapshot : Snapshot) : List NodeId := snapshot.nodes.map fun n => n.node.id

structure WellFormed (snapshot : Snapshot) : Prop where
  distinct : snapshot.ids.Nodup
  closed : ∀ n ∈ snapshot.nodes, ∀ child ∈ n.node.children, child ∈ snapshot.ids

theorem ids_eq (snapshot : Snapshot) :
    (snapshot.nodes.map SnapshotNode.node).map Node.id = snapshot.ids := by
  rw [List.map_map]
  rfl

theorem load_eq_ok_iff {snapshot : Snapshot} {arena : Arena} {model : Model} :
    snapshot.load = .ok (arena, model) ↔
      arena.file = snapshot.file ∧ arena.nodes = snapshot.nodes.map SnapshotNode.node ∧
        model = snapshot.model := by
  unfold load
  cases hArena : Arena.ofNodes snapshot.file (snapshot.nodes.map SnapshotNode.node) with
  | error fault =>
    constructor
    · intro hLoad
      cases hLoad
    · rintro ⟨hFile, hNodes, -⟩
      rw [Arena.ofNodes_eq_ok_iff.2 ⟨hFile, hNodes⟩] at hArena
      cases hArena
  | ok loaded =>
    obtain ⟨hFile, hNodes⟩ := Arena.ofNodes_eq_ok_iff.1 hArena
    change Except.ok (loaded, snapshot.model) = Except.ok (arena, model) ↔ _
    rw [Except.ok.injEq, Prod.mk.injEq]
    constructor
    · rintro ⟨rfl, rfl⟩
      exact ⟨hFile, hNodes, rfl⟩
    · rintro ⟨hFile', hNodes', rfl⟩
      exact ⟨Arena.ext_nodes (hFile.trans hFile'.symm) (hNodes.trans hNodes'.symm), rfl⟩

theorem WellFormed.of_load {snapshot : Snapshot} {arena : Arena} {model : Model}
    (hLoad : snapshot.load = .ok (arena, model)) : snapshot.WellFormed := by
  obtain ⟨-, hNodes, -⟩ := load_eq_ok_iff.1 hLoad
  constructor
  · rw [← ids_eq, ← hNodes]
    exact arena.distinct
  · intro n hn child hChild
    rw [← ids_eq, ← hNodes]
    exact arena.closed n.node (hNodes ▸ List.mem_map_of_mem hn) child hChild

theorem exists_load_iff {snapshot : Snapshot} :
    (∃ loaded, snapshot.load = .ok loaded) ↔ snapshot.WellFormed := by
  constructor
  · rintro ⟨⟨arena, model⟩, hLoad⟩
    exact .of_load hLoad
  · rintro ⟨hDistinct, hClosed⟩
    rw [← ids_eq] at hDistinct
    have hReferences : ∀ node ∈ snapshot.nodes.map SnapshotNode.node, ∀ child ∈ node.children,
        child ∈ (snapshot.nodes.map SnapshotNode.node).map Node.id := by
      intro node hNode child hChild
      obtain ⟨n, hn, rfl⟩ := List.mem_map.1 hNode
      exact ids_eq snapshot ▸ hClosed n hn child hChild
    obtain ⟨arena, hFile, hNodes⟩ := Arena.exists_of_closed snapshot.file hDistinct hReferences
    exact ⟨(arena, snapshot.model), load_eq_ok_iff.2 ⟨hFile, hNodes, rfl⟩⟩

theorem WellFormed.find?_eq_some_iff {snapshot : Snapshot} (hSnapshot : snapshot.WellFormed)
    {id : NodeId} {n : SnapshotNode} :
    snapshot.nodes.find? (fun n => n.node.id == id) = some n ↔
      n ∈ snapshot.nodes ∧ n.node.id = id :=
  Keyed.find?_key_eq_some_iff hSnapshot.distinct

theorem WellFormed.symbol?_model {snapshot : Snapshot} (hSnapshot : snapshot.WellFormed)
    {n : SnapshotNode} (hn : n ∈ snapshot.nodes) :
    snapshot.model.symbol? n.node.id = n.symbol := by
  rw [model, symbol?_modelOf hSnapshot.distinct, hSnapshot.find?_eq_some_iff.2 ⟨hn, rfl⟩,
    Option.bind_some]

theorem WellFormed.type?_model {snapshot : Snapshot} (hSnapshot : snapshot.WellFormed)
    {n : SnapshotNode} (hn : n ∈ snapshot.nodes) :
    snapshot.model.type? n.node.id = n.type := by
  rw [model, type?_modelOf hSnapshot.distinct, hSnapshot.find?_eq_some_iff.2 ⟨hn, rfl⟩,
    Option.bind_some]

theorem find?_eq_none_of_not_mem {snapshot : Snapshot} {id : NodeId} (hId : id ∉ snapshot.ids) :
    snapshot.nodes.find? (fun n => n.node.id == id) = none := by
  rw [List.find?_eq_none]
  intro n hn hSame
  exact hId (List.mem_map.2 ⟨n, hn, eq_of_beq hSame⟩)

/-- The fault of a snapshot: the earliest identifier that stands at an earlier position too, and if
there is none, the first missing reference of the first node that has one. -/
inductive Refused (snapshot : Snapshot) : Arena.Fault → Prop
  | repeated {id : NodeId} {before after : List NodeId}
    (hIds : snapshot.ids = before ++ id :: after) (hDistinct : before.Nodup)
    (hRepeated : id ∈ before) : Refused snapshot (.repeated id)
  | dangling {n : SnapshotNode} {child : NodeId} {before after : List SnapshotNode}
    (hDistinct : snapshot.ids.Nodup) (hNodes : snapshot.nodes = before ++ n :: after)
    (hBefore : ∀ other ∈ before, ∀ id, other.node.shape.RefersTo id → id ∈ snapshot.ids)
    (hMissing : n.node.shape.FirstMissing snapshot.ids child) :
    Refused snapshot (.dangling n.node.id child)

theorem indexed_eq_error_iff {snapshot : Snapshot} {fault : Arena.Fault} :
    Arena.indexed (snapshot.nodes.map SnapshotNode.node) = .error fault ↔
      ∃ before id after, snapshot.ids = before ++ id :: after ∧ before.Nodup ∧ id ∈ before ∧
        fault = .repeated id := by
  rw [Arena.indexed_eq_error_iff, ids_eq]

theorem findSome?_dangling?_iff {snapshot : Snapshot} {fault : Arena.Fault}
    {index : List (NodeId × Fin (snapshot.nodes.map SnapshotNode.node).length)}
    (hIndex : Arena.indexed (snapshot.nodes.map SnapshotNode.node) = .ok index) :
    (snapshot.nodes.map SnapshotNode.node).findSome? (Arena.dangling? index) = some fault ↔
      ∃ before n after child, snapshot.nodes = before ++ n :: after ∧
        (∀ other ∈ before, ∀ id, other.node.shape.RefersTo id → id ∈ snapshot.ids) ∧
        n.node.shape.FirstMissing snapshot.ids child ∧ fault = .dangling n.node.id child := by
  simp only [List.findSome?_map, List.findSome?_eq_some_iff, Function.comp_apply,
    Arena.dangling?_eq_some_iff hIndex, Arena.dangling?_eq_none_iff hIndex, ids_eq,
    Shape.refersTo_iff]
  constructor
  · rintro ⟨before, n, after, hNodes, ⟨child, hMissing, hFault⟩, hBefore⟩
    exact ⟨before, n, after, child, hNodes, hBefore, hMissing, hFault⟩
  · rintro ⟨before, n, after, child, hNodes, hBefore, hMissing, hFault⟩
    exact ⟨before, n, after, hNodes, ⟨child, hMissing, hFault⟩, hBefore⟩

theorem load_eq_error_iff_ofNodes {snapshot : Snapshot} {fault : Arena.Fault} :
    snapshot.load = .error fault ↔
      Arena.ofNodes snapshot.file (snapshot.nodes.map SnapshotNode.node) = .error fault := by
  rw [load]
  cases Arena.ofNodes snapshot.file (snapshot.nodes.map SnapshotNode.node) with
  | error found =>
    change Except.error found = Except.error fault ↔ _
    rw [Except.error.injEq, Except.error.injEq]
  | ok arena =>
    constructor
    · rintro ⟨⟩
    · rintro ⟨⟩

theorem load_eq_error_iff {snapshot : Snapshot} {fault : Arena.Fault} :
    snapshot.load = .error fault ↔ snapshot.Refused fault := by
  rw [load_eq_error_iff_ofNodes, Arena.ofNodes_eq_error_iff, indexed_eq_error_iff]
  constructor
  · rintro (⟨before, id, after, hIds, hDistinct, hRepeated, rfl⟩ | ⟨index, hIndex, hDangling⟩)
    · exact .repeated hIds hDistinct hRepeated
    · obtain ⟨before, n, after, child, hNodes, hBefore, hMissing, rfl⟩ :=
        (findSome?_dangling?_iff hIndex).1 hDangling
      have hDistinct := Arena.nodup_of_indexed hIndex
      rw [ids_eq] at hDistinct
      exact .dangling hDistinct hNodes hBefore hMissing
  · rintro (⟨hIds, hDistinct, hRepeated⟩ | ⟨hDistinct, hNodes, hBefore, hMissing⟩)
    · exact .inl ⟨_, _, _, hIds, hDistinct, hRepeated, rfl⟩
    · rw [← ids_eq, ← Keyed.map_key_finRange] at hDistinct
      obtain ⟨index, hIndex⟩ := Arena.exists_foldlM_register hDistinct
      exact .inr ⟨index, hIndex, (findSome?_dangling?_iff hIndex).2
        ⟨_, _, _, _, hNodes, hBefore, hMissing, rfl⟩⟩

/-- What a loaded snapshot answers: about an identifier of one of its nodes, with that node and what
is written on it, and about any other identifier, with nothing. -/
structure Answers (snapshot : Snapshot) (arena : Arena) (model : Model) : Prop where
  file : arena.file = snapshot.file
  nodes : arena.nodes = snapshot.nodes.map SnapshotNode.node
  known : ∀ n ∈ snapshot.nodes, arena.get? n.node.id = some n.node ∧
    model.symbol? n.node.id = n.symbol ∧ model.type? n.node.id = n.type
  unknown : ∀ id, id ∉ snapshot.ids →
    arena.get? id = none ∧ model.symbol? id = none ∧ model.type? id = none
  resolved : ∀ node ∈ arena.nodes, ∀ id, node.shape.RefersTo id →
    ∃ target ∈ arena.nodes, arena.get? id = some target

theorem Answers.of_load {snapshot : Snapshot} {arena : Arena} {model : Model}
    (hLoad : snapshot.load = .ok (arena, model)) : snapshot.Answers arena model := by
  have hSnapshot : snapshot.WellFormed := .of_load hLoad
  obtain ⟨hFile, hNodes, rfl⟩ := load_eq_ok_iff.1 hLoad
  have hIds : arena.nodes.map Node.id = snapshot.ids := by rw [hNodes, ids_eq]
  constructor
  · exact hFile
  · exact hNodes
  · intro n hn
    refine ⟨Arena.get?_eq_some_iff.2 ⟨?_, rfl⟩, hSnapshot.symbol?_model hn,
      hSnapshot.type?_model hn⟩
    rw [hNodes]
    exact List.mem_map_of_mem hn
  · intro id hId
    have hFind := find?_eq_none_of_not_mem hId
    refine ⟨?_, ?_, ?_⟩
    · rw [Option.eq_none_iff_forall_ne_some]
      intro node hGet
      obtain ⟨hNode, rfl⟩ := Arena.get?_eq_some_iff.1 hGet
      exact hId (hIds ▸ List.mem_map_of_mem hNode)
    · rw [model, symbol?_modelOf hSnapshot.distinct, hFind, Option.bind_none]
    · rw [model, type?_modelOf hSnapshot.distinct, hFind, Option.bind_none]
  · intro node hNode id hRefers
    have hClosed := arena.closed node hNode id (Shape.refersTo_iff.1 hRefers)
    obtain ⟨target, hTarget, rfl⟩ := List.mem_map.1 hClosed
    exact ⟨target, hTarget, Arena.get?_eq_some_iff.2 ⟨hTarget, rfl⟩⟩

/-- Exactly the well-formed snapshots are loaded; the others are refused for their first fault. -/
theorem load_exact (snapshot : Snapshot) :
    ((∃ loaded, snapshot.load = .ok loaded) ↔
      snapshot.ids.Nodup ∧
        ∀ n ∈ snapshot.nodes, ∀ id, n.node.shape.RefersTo id → id ∈ snapshot.ids) ∧
    (∀ arena model, snapshot.load = .ok (arena, model) → snapshot.Answers arena model) ∧
    ∀ fault, snapshot.load = .error fault ↔ snapshot.Refused fault := by
  refine ⟨?_, fun arena model => .of_load, fun fault => load_eq_error_iff⟩
  rw [exists_load_iff]
  constructor
  · rintro ⟨hDistinct, hClosed⟩
    exact ⟨hDistinct, fun n hn id hRefers => hClosed n hn id (Shape.refersTo_iff.1 hRefers)⟩
  · rintro ⟨hDistinct, hClosed⟩
    exact ⟨hDistinct, fun n hn id hId => hClosed n hn id (Shape.refersTo_iff.2 hId)⟩

example :
    Arena.indexed [{ id := ⟨1⟩, shape := .memberAccess ⟨9⟩ "Count" },
      { id := ⟨2⟩, shape := .literal }, { id := ⟨2⟩, shape := .literal }] =
        .error (.repeated ⟨2⟩) := by
  rfl

end Snapshot

end CostlyCalls
