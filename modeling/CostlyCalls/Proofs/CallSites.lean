import Mathlib.Data.Option.Basic
import CostlyCalls.Proofs.Loading
import CostlyCalls.Proofs.Supertypes
import CostlyCalls.Rule.Call

/-!
# Call sites of a snapshot

The conditions of a call rule in terms of what is written in a snapshot: which node is called on,
what a capability of a type means in chains of declarations, and when a receiver type meets a
predicate. `CallSite.find?` and `CallRule.finding?` decide exactly these conditions.
-/

set_option autoImplicit false

namespace CostlyCalls

/-- A type has the capability that an interface defines: it is an array, or a named type that
declares or inherits the interface. -/
inductive StaticType.Offers (types : TypeTable) (interface : String) : StaticType → Prop
  | array (element : StaticType) : Offers types interface (.array element)
  | named {name : String} (hInherits : types.Inherits name interface) :
    Offers types interface (.named name)

def Predicate.Meets (types : TypeTable) (names : CapabilityNames) (type : StaticType) :
    Predicate → Prop
  | .has capability => type.Offers types (names.interface capability)
  | .lacks capability => ¬ type.Offers types (names.interface capability)
  | .isArray => ∃ element, type = .array element
  | .isNotArray => ∀ element, type ≠ .array element

/-- The type is an array or a named type: no type parameter, and neither dynamic nor unresolved. -/
def StaticType.IsKnown (type : StaticType) : Prop :=
  (∃ element, type = .array element) ∨ ∃ name, type = .named name

theorem StaticType.isUnknown_eq_false_iff {type : StaticType} :
    type.isUnknown = false ↔ type.IsKnown := by
  cases type <;> simp [isUnknown, IsKnown]

theorem StaticType.isArray_eq_true_iff {type : StaticType} :
    type.isArray = true ↔ ∃ element, type = .array element := by
  cases type <;> simp [isArray]

theorem CapabilityTable.has_eq_true_iff {table : CapabilityTable} {snapshot : Snapshot}
    {type : StaticType} {capability : Capability} :
    table.has snapshot.model type capability = true ↔
      type.Offers snapshot.types (table.names.interface capability) := by
  cases type with
  | array element => exact iff_of_true rfl (.array element)
  | named name =>
    have hMem : table.has snapshot.model (.named name) capability = true ↔
        table.names.interface capability ∈ snapshot.types.interfacesOf name := by
      simp [has, interface, Snapshot.model, Snapshot.modelOf]
    rw [hMem, TypeTable.mem_interfacesOf_iff]
    constructor
    · exact .named
    · rintro ⟨⟩
      assumption
  | parameter name => exact iff_of_false Bool.false_ne_true (by rintro ⟨⟩)
  | dynamic => exact iff_of_false Bool.false_ne_true (by rintro ⟨⟩)
  | unresolved => exact iff_of_false Bool.false_ne_true (by rintro ⟨⟩)

theorem Predicate.holds_iff {predicate : Predicate} {table : CapabilityTable} {snapshot : Snapshot}
    {type : StaticType} :
    predicate.holds table snapshot.model type = true ↔
      type.IsKnown ∧ predicate.Meets snapshot.types table.names type := by
  unfold holds
  rw [Bool.and_eq_true, Bool.not_eq_true', StaticType.isUnknown_eq_false_iff]
  refine and_congr_right fun _ => ?_
  cases predicate with
  | has capability => exact CapabilityTable.has_eq_true_iff
  | lacks capability =>
    simp only [Bool.not_eq_true', Meets, ← CapabilityTable.has_eq_true_iff, Bool.not_eq_true]
  | isArray => exact StaticType.isArray_eq_true_iff
  | isNotArray =>
    simp only [Bool.not_eq_true', Meets, ← Bool.not_eq_true, StaticType.isArray_eq_true_iff,
      not_exists, ne_eq]

theorem Arity.admits_ofOperation_iff {operation : String} {parameterCount : UInt64} :
    (Arity.ofOperation operation).admits parameterCount = true ↔
      parameterCount = 0 ∨ operation ∈ Arity.exempt := by
  unfold ofOperation
  split
  · next hExempt => simp [admits, hExempt]
  · next hOther => simp [admits, hOther]

namespace CallSite

theorem find?_eq_some_iff {ctx : Context} {node : Node} {operation : String}
    {predicate : Predicate} {site : CallSite} :
    find? ctx node operation predicate = some site ↔
      ∃ receiver method type, receiver? ctx node = some receiver ∧
        ctx.model.symbol? node.id = some (.method method) ∧ method.name = operation ∧
        (method.parameterCount = 0 ∨ operation ∈ Arity.exempt) ∧
        method.containingType = some ctx.facade ∧ ctx.model.type? receiver = some type ∧
        predicate.holds ctx.table ctx.model type = true ∧
        site = ⟨operation, method.parameterCount, ctx.facade, receiver, type⟩ := by
  have hMethod : ∀ {symbol : Option Symbol} {method : Method},
      symbol.bind Symbol.method? = some method ↔ symbol = some (.method method) := by
    intro symbol method
    rcases symbol with - | (m | ⟨role, name, type⟩) <;> simp [Symbol.method?]
  simp only [find?, Option.bind_eq_bind, Option.bind_eq_some_iff, Option.guard_eq_some', hMethod,
    Arity.admits_ofOperation_iff, exists_const, pure, Option.some_inj]
  constructor
  · rintro ⟨receiver, hReceiver, method, hSymbol, rfl, hArity, _, hDeclaring, rfl, type, hType,
      hHolds, rfl⟩
    exact ⟨receiver, method, type, hReceiver, hSymbol, rfl, hArity, hDeclaring, hType, hHolds, rfl⟩
  · rintro ⟨receiver, method, type, hReceiver, hSymbol, rfl, hArity, hDeclaring, hType, hHolds, rfl⟩
    exact ⟨receiver, hReceiver, method, hSymbol, rfl, hArity, _, hDeclaring, rfl, type, hType,
      hHolds, rfl⟩

end CallSite

namespace CallRule

theorem site?_eq_some_iff {rule : CallRule} {ctx : Context} {node : Node} {site : CallSite} :
    rule.site? ctx node = some site ↔
      ∃ operation ∈ rule.operations,
        CallSite.find? ctx node operation rule.predicate = some site := by
  unfold site?
  constructor
  · exact List.exists_of_findSome?_eq_some
  · rintro ⟨operation, hOperation, hFind⟩
    cases hSite : rule.operations.findSome?
        (fun operation => CallSite.find? ctx node operation rule.predicate) with
    | none =>
      have hNone := List.findSome?_eq_none_iff.1 hSite operation hOperation
      rw [hNone] at hFind
      cases hFind
    | some found =>
      obtain ⟨other, -, hOther⟩ := List.exists_of_findSome?_eq_some hSite
      obtain ⟨_, _, _, hReceiver, hSymbol, hName, -, -, hType, -, rfl⟩ :=
        CallSite.find?_eq_some_iff.1 hOther
      obtain ⟨_, _, _, hReceiver', hSymbol', hName', -, -, hType', -, rfl⟩ :=
        CallSite.find?_eq_some_iff.1 hFind
      cases hReceiver.symm.trans hReceiver'
      cases hSymbol.symm.trans hSymbol'
      cases hType.symm.trans hType'
      cases hName.symm.trans hName'
      rfl

theorem exists_finding?_iff {rule : CallRule} {ctx : Context} {node : Node} :
    (∃ finding, rule.finding? ctx node = some finding) ↔
      ∃ receiver method type, CallSite.receiver? ctx node = some receiver ∧
        ctx.model.symbol? node.id = some (.method method) ∧ method.name ∈ rule.operations ∧
        (method.parameterCount = 0 ∨ method.name ∈ Arity.exempt) ∧
        method.containingType = some ctx.facade ∧ ctx.model.type? receiver = some type ∧
        rule.predicate.holds ctx.table ctx.model type = true := by
  simp only [finding?, Option.map_eq_some_iff, site?_eq_some_iff, CallSite.find?_eq_some_iff]
  constructor
  · rintro ⟨_, _, ⟨_, hOperation, receiver, method, type, hReceiver, hSymbol, rfl, hArity,
      hDeclaring, hType, hHolds, -⟩, -⟩
    exact ⟨receiver, method, type, hReceiver, hSymbol, hOperation, hArity, hDeclaring, hType,
      hHolds⟩
  · rintro ⟨receiver, method, type, hReceiver, hSymbol, hOperation, hArity, hDeclaring, hType,
      hHolds⟩
    exact ⟨_, _, ⟨_, hOperation, receiver, method, type, hReceiver, hSymbol, rfl, hArity,
      hDeclaring, hType, hHolds, rfl⟩, rfl⟩

end CallRule

theorem CallSite.receiver?_eq_some_iff {ctx : Context} {node : Node} {receiver : NodeId} :
    CallSite.receiver? ctx node = some receiver ↔
      (∃ name, node.shape = .memberAccess receiver name) ∨
      ∃ callee ∈ ctx.arena.nodes, (∃ arguments, node.shape = .invocation callee.id arguments) ∧
        ∃ name, callee.shape = .memberAccess receiver name := by
  unfold receiver?
  cases hShape : node.shape with
  | memberAccess inner name => simp
  | invocation calleeId arguments =>
    simp only [reduceCtorEq, exists_false, false_or, Shape.invocation.injEq, exists_and_left]
    constructor
    · intro hReceiver
      split at hReceiver
      · next inner name hCallee =>
        obtain ⟨callee, hGet, hAccess⟩ := Option.map_eq_some_iff.1 hCallee
        obtain ⟨hMem, rfl⟩ := Arena.get?_eq_some_iff.1 hGet
        cases hReceiver
        exact ⟨callee, hMem, ⟨rfl, arguments, rfl⟩, name, hAccess⟩
      · cases hReceiver
    · rintro ⟨callee, hMem, ⟨rfl, -⟩, name, hAccess⟩
      have hGet : ctx.node? callee.id = some callee := Arena.get?_eq_some_iff.2 ⟨hMem, rfl⟩
      rw [hGet, Option.map_some, hAccess]
  | identifier | literal | fieldDeclaration | propertyDeclaration | methodDeclaration | other =>
    simp

def SnapshotNode.Accesses (n v : SnapshotNode) : Prop :=
  ∃ name, n.node.shape = .memberAccess v.node.id name

/-- `n` is an access to a member of `v`, or an invocation of such an access. -/
def Snapshot.CallsOn (snapshot : Snapshot) (n v : SnapshotNode) : Prop :=
  n.Accesses v ∨ ∃ callee ∈ snapshot.nodes,
    (∃ arguments, n.node.shape = .invocation callee.node.id arguments) ∧ callee.Accesses v

/-- The context shows the nodes and the model of a snapshot that can be loaded. -/
structure Context.Shows (ctx : Context) (snapshot : Snapshot) : Prop where
  wellFormed : snapshot.WellFormed
  file : ctx.file = snapshot.file
  nodes : ctx.arena.nodes = snapshot.nodes.map SnapshotNode.node
  model : ctx.model = snapshot.model

theorem Context.Shows.receiver?_eq_some_iff {ctx : Context} {snapshot : Snapshot}
    (hCtx : ctx.Shows snapshot) {n : SnapshotNode} (hn : n ∈ snapshot.nodes) {receiver : NodeId} :
    CallSite.receiver? ctx n.node = some receiver ↔
      ∃ v ∈ snapshot.nodes, v.node.id = receiver ∧ snapshot.CallsOn n v := by
  have hResolved : ∀ m ∈ snapshot.nodes, ∀ name, m.node.shape = .memberAccess receiver name →
      ∃ v ∈ snapshot.nodes, v.node.id = receiver := by
    intro m hm name hShape
    have hChild : receiver ∈ m.node.children := by simp [Node.children, hShape, Shape.children]
    exact List.mem_map.1 (hCtx.wellFormed.closed m hm receiver hChild)
  rw [CallSite.receiver?_eq_some_iff, hCtx.nodes]
  constructor
  · rintro (⟨name, hShape⟩ | ⟨node, hNode, hInvocation, name, hShape⟩)
    · obtain ⟨v, hv, rfl⟩ := hResolved n hn name hShape
      exact ⟨v, hv, rfl, .inl ⟨name, hShape⟩⟩
    · obtain ⟨callee, hCallee, rfl⟩ := List.mem_map.1 hNode
      obtain ⟨v, hv, rfl⟩ := hResolved callee hCallee name hShape
      exact ⟨v, hv, rfl, .inr ⟨callee, hCallee, hInvocation, name, hShape⟩⟩
  · rintro ⟨v, hv, rfl, hAccess | ⟨callee, hCallee, hInvocation, hAccess⟩⟩
    · exact .inl hAccess
    · exact .inr ⟨callee.node, List.mem_map_of_mem hCallee, hInvocation, hAccess⟩

end CostlyCalls
