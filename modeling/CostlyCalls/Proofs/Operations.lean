import CostlyCalls.Proofs.CallSites

/-!
# The operations of a call rule

A call rule goes through its operations and flags the first call site that it comes to. Since a node
resolves to at most one method, and a call site is one of the operation with the name of that
method, no two operations have a call site at the same node. So neither the order of the operations
nor their repetition matters.
-/

set_option autoImplicit false

namespace CostlyCalls

namespace CallSite

/-- The node is an access to a member of the receiver, or an invocation of such an access. -/
def IsReceiver (ctx : Context) (node : Node) (receiver : NodeId) : Prop :=
  (∃ name, node.shape = .memberAccess receiver name) ∨
    ∃ callee ∈ ctx.arena.nodes, (∃ arguments, node.shape = .invocation callee.id arguments) ∧
      ∃ name, callee.shape = .memberAccess receiver name

structure Describes (site : CallSite) (ctx : Context) (node : Node) (method : Method) : Prop where
  operation : site.operation = method.name
  parameterCount : site.parameterCount = method.parameterCount
  declaringType : site.declaringType = ctx.facade
  receiver : IsReceiver ctx node site.receiver
  receiverType : ctx.model.type? site.receiver = some site.receiverType

theorem exists_method_of_find? {ctx : Context} {node : Node} {operation : String}
    {predicate : Predicate} {site : CallSite}
    (hFind : find? ctx node operation predicate = some site) :
    ∃ method, ctx.model.symbol? node.id = some (.method method) ∧ method.name = operation ∧
      site.Describes ctx node method := by
  obtain ⟨receiver, method, type, hReceiver, hSymbol, hName, -, -, hType, -, rfl⟩ :=
    find?_eq_some_iff.1 hFind
  exact ⟨method, hSymbol, hName, hName.symm, rfl, rfl, receiver?_eq_some_iff.1 hReceiver, hType⟩

end CallSite

namespace CallRule

variable {rule : CallRule} {ctx : Context} {node : Node}

def withOperations (rule : CallRule) (operations : List String) : CallRule :=
  { rule with operations }

def findingAt (rule : CallRule) (ctx : Context) (node : Node) (site : CallSite) : Finding :=
  .atNode rule.id .warning (some rule.explanation) ctx node
    (Text.Template.fill rule.message (subject ctx site.receiver))

theorem report_iff {finding : Finding} :
    (rule.toRule.check ctx node).verdict = .report finding ↔
      ∃ site, rule.site? ctx node = some site ∧ finding = rule.findingAt ctx node site := by
  have hFinding : (rule.toRule.check ctx node).verdict = .report finding ↔
      rule.finding? ctx node = some finding := by
    unfold toRule
    cases h : rule.finding? ctx node <;> simp [h]
  rw [hFinding, finding?, Option.map_eq_some_iff]
  simp only [findingAt, eq_comm]

theorem site?_withOperations_congr {first second : List String}
    (hSame : ∀ operation, operation ∈ first ↔ operation ∈ second) :
    (rule.withOperations first).site? ctx node = (rule.withOperations second).site? ctx node := by
  apply Option.ext
  intro site
  rw [site?_eq_some_iff, site?_eq_some_iff]
  simp only [withOperations, hSame]

theorem check_withOperations_congr {first second : List String}
    (hSame : ∀ operation, operation ∈ first ↔ operation ∈ second) :
    (rule.withOperations first).toRule.check ctx node =
      (rule.withOperations second).toRule.check ctx node := by
  have hFinding : (rule.withOperations first).finding? ctx node =
      (rule.withOperations second).finding? ctx node := by
    rw [finding?, finding?, site?_withOperations_congr hSame]
    rfl
  simp only [toRule, hFinding]

theorem site?_withOperations_append {first second : List String} {site : CallSite} :
    (rule.withOperations (first ++ second)).site? ctx node = some site ↔
      (rule.withOperations first).site? ctx node = some site ∨
        (rule.withOperations second).site? ctx node = some site := by
  simp only [site?_eq_some_iff, withOperations, List.mem_append, or_and_right, exists_or]

theorem site?_eq_some_iff_method {site : CallSite} :
    rule.site? ctx node = some site ↔
      ∃ method, ctx.model.symbol? node.id = some (.method method) ∧
        method.name ∈ rule.operations ∧
        CallSite.find? ctx node method.name rule.predicate = some site := by
  rw [site?_eq_some_iff]
  constructor
  · rintro ⟨operation, hOperation, hFind⟩
    obtain ⟨method, hSymbol, rfl, -⟩ := CallSite.exists_method_of_find? hFind
    exact ⟨method, hSymbol, hOperation, hFind⟩
  · rintro ⟨method, -, hOperation, hFind⟩
    exact ⟨method.name, hOperation, hFind⟩

/-- The operations of a call rule count as a set, and the one that matters is the resolved
method. -/
theorem check_operations_as_set (rule : CallRule) (ctx : Context) (node : Node) :
    (∀ first second : List String, (∀ operation, operation ∈ first ↔ operation ∈ second) →
      (rule.withOperations first).toRule.check ctx node =
        (rule.withOperations second).toRule.check ctx node) ∧
    (∀ first second finding,
      ((rule.withOperations (first ++ second)).toRule.check ctx node).verdict = .report finding ↔
        ((rule.withOperations first).toRule.check ctx node).verdict = .report finding ∨
          ((rule.withOperations second).toRule.check ctx node).verdict = .report finding) ∧
    (∀ finding, (rule.toRule.check ctx node).verdict = .report finding ↔
      ∃ method site, ctx.model.symbol? node.id = some (.method method) ∧
        method.name ∈ rule.operations ∧
        CallSite.find? ctx node method.name rule.predicate = some site ∧
        finding = rule.findingAt ctx node site) ∧
    ∀ method site, ctx.model.symbol? node.id = some (.method method) →
      CallSite.find? ctx node method.name rule.predicate = some site →
      site.Describes ctx node method := by
  refine ⟨fun first second hSame => check_withOperations_congr hSame, ?_, ?_, ?_⟩
  · intro first second finding
    simp only [report_iff, site?_withOperations_append, or_and_right, exists_or]
    rfl
  · intro finding
    simp only [report_iff, site?_eq_some_iff_method]
    constructor
    · rintro ⟨site, ⟨method, hSymbol, hName, hFind⟩, hFinding⟩
      exact ⟨method, site, hSymbol, hName, hFind, hFinding⟩
    · rintro ⟨method, site, hSymbol, hName, hFind, hFinding⟩
      exact ⟨site, ⟨method, hSymbol, hName, hFind⟩, hFinding⟩
  · intro method site hSymbol hFind
    obtain ⟨same, hSame, -, hDescribes⟩ := CallSite.exists_method_of_find? hFind
    cases hSymbol.symm.trans hSame
    exact hDescribes

end CallRule

end CostlyCalls
