import Mathlib.Data.List.Basic
import CostlyCalls.Proofs.CallSites
import CostlyCalls.Proofs.Construction

/-!
# What the built-in rules report

The analysis of a snapshot with the built-in rules against a condition on the text of the snapshot.
`Flagged` says when a rule applies to a node, in terms of the node, the nodes it refers to and
chains of type declarations. The findings of a run are exactly the flagged nodes of enabled rules,
in the order of the snapshot, and no node has two findings: two rules that are run on nodes of the
same kind ask for methods of different names.
-/

set_option autoImplicit false

namespace CostlyCalls

/-- `n` calls a method of the facade on `v`, and the rule asks for this method on receivers of this
type. -/
structure CallRule.Flags (rule : CallRule) (semantics : SemanticsConfig) (snapshot : Snapshot)
    (n v : SnapshotNode) (method : Method) (type : StaticType) : Prop where
  kind : n.node.kind = if rule.id = ⟨4⟩ then .memberAccess else .invocation
  receiver : v ∈ snapshot.nodes
  callsOn : snapshot.CallsOn n v
  symbol : n.symbol = some (.method method)
  operation : method.name ∈ rule.operations
  arity : method.parameterCount = 0 ∨ method.name ∈ ["Contains", "ElementAt", "ElementAtOrDefault"]
  declaring : method.containingType = some (Text.trim semantics.facade)
  receiverType : v.type = some type
  known : type.IsKnown
  meets : rule.predicate.Meets snapshot.types semantics.capabilities type

/-- The built-in rule with this identifier applies to `n`. -/
inductive Flagged (semantics : SemanticsConfig) (snapshot : Snapshot) (n : SnapshotNode) :
    RuleId → Prop
  | call {rule : CallRule} {v : SnapshotNode} {method : Method} {type : StaticType}
      (hRule : rule ∈ Catalogue.callRules)
      (hFlags : rule.Flags semantics snapshot n v method type) :
      Flagged semantics snapshot n rule.id
  | arrayProperty {name : String} {element : StaticType}
      (hKind : n.node.kind = .propertyDeclaration)
      (hSymbol : n.symbol = some (.typed .property name (.array element))) :
      Flagged semantics snapshot n ⟨1⟩
  | arrayField {name : String} {element : StaticType}
      (hKind : n.node.kind = .fieldDeclaration)
      (hSymbol : n.symbol = some (.typed .field name (.array element))) :
      Flagged semantics snapshot n ⟨2⟩
  | arrayReturn {method : Method} {element : StaticType}
      (hKind : n.node.kind = .methodDeclaration) (hSymbol : n.symbol = some (.method method))
      (hReturn : method.returnType = some (.array element)) :
      Flagged semantics snapshot n ⟨3⟩

namespace Catalogue

theorem operations_disjoint :
    callRules.Pairwise fun a b => ∀ kind ∈ a.kinds, kind ∈ b.kinds →
      ∀ operation ∈ a.operations, operation ∉ b.operations := by
  decide +kernel

theorem kinds_callRules {rule : CallRule} (hRule : rule ∈ callRules) :
    rule.kinds = [if rule.id = ⟨4⟩ then .memberAccess else .invocation] := by
  revert rule
  decide +kernel

theorem kinds_nodup : ∀ rule ∈ rules, rule.kinds.Nodup := by
  decide +kernel

theorem kinds_declarationRules :
    declarationRules.Pairwise fun a b => a.declaration.kind ≠ b.declaration.kind := by
  decide

theorem kind_declaration_ne {declaration : DeclarationRule} {call : CallRule}
    (hCall : call ∈ callRules) : declaration.declaration.kind ∉ call.kinds := by
  rw [kinds_callRules hCall, List.mem_singleton]
  cases declaration.declaration <;> split <;> simp [Declaration.kind]

theorem severity_eq_warning {rule : Rule} (hRule : rule ∈ rules) : rule.severity = .warning := by
  rcases List.mem_append.1 hRule with hRule | hRule
  · obtain ⟨declaration, -, rfl⟩ := List.mem_map.1 hRule
    rfl
  · obtain ⟨call, -, rfl⟩ := List.mem_map.1 hRule
    rfl

/-- Of two built-in rules that are run on a node, at most one reports it. -/
theorem report?_exclusive (ctx : Context) (node : Node) :
    rules.Pairwise fun a b => node.kind ∈ a.kinds → node.kind ∈ b.kinds →
      a.report? ctx node = none ∨ b.report? ctx node = none := by
  unfold rules
  rw [List.pairwise_append, List.pairwise_map, List.pairwise_map]
  refine ⟨kinds_declarationRules.imp ?_, operations_disjoint.imp ?_, ?_⟩
  · intro a b hKinds ha hb
    simp only [DeclarationRule.toRule, List.mem_singleton] at ha hb
    exact absurd (ha.symm.trans hb) hKinds
  · intro a b hDisjoint ha hb
    simp only [CallRule.report?_toRule]
    cases hA : a.finding? ctx node with
    | none => exact .inl rfl
    | some first =>
      cases hB : b.finding? ctx node with
      | none => exact .inr rfl
      | some second =>
        obtain ⟨_, method, _, _, hSymbol, hMem, -⟩ := CallRule.exists_finding?_iff.1 ⟨first, hA⟩
        obtain ⟨_, other, _, _, hSymbol', hMem', -⟩ := CallRule.exists_finding?_iff.1 ⟨second, hB⟩
        cases hSymbol.symm.trans hSymbol'
        exact absurd hMem' (hDisjoint node.kind ha hb method.name hMem)
  · intro a ha b hb hKindA hKindB
    obtain ⟨declaration, -, rfl⟩ := List.mem_map.1 ha
    obtain ⟨call, hCall, rfl⟩ := List.mem_map.1 hb
    simp only [DeclarationRule.toRule, List.mem_singleton] at hKindA
    exact absurd (hKindA ▸ hKindB) (kind_declaration_ne hCall)

end Catalogue

structure Finding.IsAt (finding : Finding) (file : Path) (node : Node) : Prop where
  file : finding.file = file
  line : finding.line = node.span.line
  column : finding.column = node.span.column
  endLine : finding.endLine = node.span.endLine
  endColumn : finding.endColumn = node.span.endColumn

theorem Catalogue.report?_isAt {rule : Rule} (hRule : rule ∈ rules) {ctx : Context} {node : Node}
    {finding : Finding} (hReport : rule.report? ctx node = some finding) :
    finding.rule = rule.id ∧ finding.IsAt ctx.file node := by
  rcases List.mem_append.1 hRule with hRule | hRule
  · obtain ⟨declaration, -, rfl⟩ := List.mem_map.1 hRule
    rw [DeclarationRule.report?_toRule, DeclarationRule.finding?, Option.map_eq_some_iff] at hReport
    obtain ⟨symbol, -, rfl⟩ := hReport
    exact ⟨rfl, rfl, rfl, rfl, rfl, rfl⟩
  · obtain ⟨call, -, rfl⟩ := List.mem_map.1 hRule
    rw [CallRule.report?_toRule, CallRule.finding?, Option.map_eq_some_iff] at hReport
    obtain ⟨site, -, rfl⟩ := hReport
    exact ⟨rfl, rfl, rfl, rfl, rfl, rfl⟩

theorem CallRule.flags_iff {rule : CallRule} (hRule : rule ∈ Catalogue.callRules)
    {semantics : SemanticsConfig} {snapshot : Snapshot} {ctx : Context} (hCtx : ctx.Shows snapshot)
    (hNames : ctx.table.names = semantics.capabilities)
    (hFacade : ctx.facade = Text.trim semantics.facade) {n : SnapshotNode}
    (hn : n ∈ snapshot.nodes) :
    (n.node.kind ∈ rule.kinds ∧ ∃ finding, rule.finding? ctx n.node = some finding) ↔
      ∃ v method type, rule.Flags semantics snapshot n v method type := by
  rw [Catalogue.kinds_callRules hRule, List.mem_singleton, CallRule.exists_finding?_iff]
  simp only [hCtx.receiver?_eq_some_iff hn, hCtx.model, hFacade, Predicate.holds_iff, hNames,
    hCtx.wellFormed.symbol?_model hn]
  constructor
  · rintro ⟨hKind, _, method, type, ⟨v, hv, rfl, hCalls⟩, hSymbol, hOperation, hArity, hDeclaring,
      hType, hKnown, hMeets⟩
    rw [hCtx.wellFormed.type?_model hv] at hType
    exact ⟨v, method, type, hKind, hv, hCalls, hSymbol, hOperation, hArity, hDeclaring, hType,
      hKnown, hMeets⟩
  · rintro ⟨v, method, type, hFlags⟩
    refine ⟨hFlags.kind, v.node.id, method, type, ⟨v, hFlags.receiver, rfl, hFlags.callsOn⟩,
      hFlags.symbol, hFlags.operation, hFlags.arity, hFlags.declaring, ?_, hFlags.known,
      hFlags.meets⟩
    rw [hCtx.wellFormed.type?_model hFlags.receiver]
    exact hFlags.receiverType

theorem DeclarationRule.exists_finding?_iff {rule : DeclarationRule} {ctx : Context} {node : Node} :
    (∃ finding, rule.finding? ctx node = some finding) ↔
      ∃ symbol element, ctx.model.symbol? node.id = some symbol ∧
        rule.declaration.type? symbol = some (.array element) := by
  simp only [finding?, Option.map_eq_some_iff, Option.filter_eq_some_iff,
    Declaration.declaresArray, Option.any_eq_true, StaticType.isArray_eq_true_iff]
  constructor
  · rintro ⟨_, symbol, ⟨hSymbol, _, hType, element, rfl⟩, -⟩
    exact ⟨symbol, element, hSymbol, hType⟩
  · rintro ⟨symbol, element, hSymbol, hType⟩
    exact ⟨_, symbol, ⟨hSymbol, _, hType, element, rfl⟩, rfl⟩

theorem Declaration.type?_property_iff {symbol : Symbol} {type : StaticType} :
    Declaration.property.type? symbol = some type ↔ ∃ name, symbol = .typed .property name type := by
  rcases symbol with method | ⟨role, name, declared⟩
  · simp [type?]
  · cases role <;> simp [type?]

theorem Declaration.type?_field_iff {symbol : Symbol} {type : StaticType} :
    Declaration.field.type? symbol = some type ↔ ∃ name, symbol = .typed .field name type := by
  rcases symbol with method | ⟨role, name, declared⟩
  · simp [type?]
  · cases role <;> simp [type?]

theorem Declaration.type?_methodReturn_iff {symbol : Symbol} {type : StaticType} :
    Declaration.methodReturn.type? symbol = some type ↔
      ∃ method, symbol = .method method ∧ method.returnType = some type := by
  rcases symbol with method | ⟨role, name, declared⟩
  · simp [type?]
  · simp [type?]

/-- A built-in rule that is run on a node reports it if and only if the node is flagged. -/
theorem Catalogue.reports_iff {semantics : SemanticsConfig} {snapshot : Snapshot} {ctx : Context}
    (hCtx : ctx.Shows snapshot) (hNames : ctx.table.names = semantics.capabilities)
    (hFacade : ctx.facade = Text.trim semantics.facade) {n : SnapshotNode}
    (hn : n ∈ snapshot.nodes) {id : RuleId} :
    (∃ rule ∈ rules, rule.id = id ∧ n.node.kind ∈ rule.kinds ∧
      ∃ finding, rule.report? ctx n.node = some finding) ↔ Flagged semantics snapshot n id := by
  have hDeclares : ∀ rule : DeclarationRule,
      (∃ finding, rule.toRule.report? ctx n.node = some finding) ↔
        ∃ symbol element, n.symbol = some symbol ∧
          rule.declaration.type? symbol = some (.array element) := by
    intro rule
    simp only [DeclarationRule.report?_toRule, DeclarationRule.exists_finding?_iff, hCtx.model,
      hCtx.wellFormed.symbol?_model hn]
  constructor
  · rintro ⟨rule, hRule, rfl, hKind, hReport⟩
    rcases List.mem_append.1 hRule with hRule | hRule
    · obtain ⟨declaration, hDeclaration, rfl⟩ := List.mem_map.1 hRule
      obtain ⟨symbol, element, hSymbol, hType⟩ := (hDeclares declaration).1 hReport
      rw [DeclarationRule.toRule, List.mem_singleton] at hKind
      simp only [declarationRules, List.mem_cons, List.not_mem_nil, or_false] at hDeclaration
      rcases hDeclaration with rfl | rfl | rfl
      · obtain ⟨name, rfl⟩ := Declaration.type?_property_iff.1 hType
        exact .arrayProperty hKind hSymbol
      · obtain ⟨name, rfl⟩ := Declaration.type?_field_iff.1 hType
        exact .arrayField hKind hSymbol
      · obtain ⟨method, rfl, hReturn⟩ := Declaration.type?_methodReturn_iff.1 hType
        exact .arrayReturn hKind hSymbol hReturn
    · obtain ⟨call, hCall, rfl⟩ := List.mem_map.1 hRule
      simp only [CallRule.report?_toRule] at hReport
      obtain ⟨v, method, type, hFlags⟩ :=
        (CallRule.flags_iff hCall hCtx hNames hFacade hn).1 ⟨hKind, hReport⟩
      exact .call hCall hFlags
  · have hDeclaration : ∀ rule ∈ declarationRules, rule.toRule ∈ rules := fun rule hRule =>
      List.mem_append_left _ (List.mem_map_of_mem hRule)
    rintro (@⟨rule, v, method, type, hRule, hFlags⟩ | @⟨name, element, hKind, hSymbol⟩ |
      @⟨name, element, hKind, hSymbol⟩ | @⟨method, element, hKind, hSymbol, hReturn⟩)
    · obtain ⟨hKind, hReport⟩ :=
        (CallRule.flags_iff hRule hCtx hNames hFacade hn).2 ⟨v, method, type, hFlags⟩
      refine ⟨rule.toRule, List.mem_append_right _ (List.mem_map_of_mem hRule), rfl, hKind, ?_⟩
      simpa only [CallRule.report?_toRule] using hReport
    · refine ⟨arrayProperty.toRule, hDeclaration _ (by simp [declarationRules]), rfl, ?_, ?_⟩
      · simp [DeclarationRule.toRule, arrayProperty, Declaration.kind, hKind]
      · exact (hDeclares _).2 ⟨_, element, hSymbol, rfl⟩
    · refine ⟨arrayField.toRule, hDeclaration _ (by simp [declarationRules]), rfl, ?_, ?_⟩
      · simp [DeclarationRule.toRule, arrayField, Declaration.kind, hKind]
      · exact (hDeclares _).2 ⟨_, element, hSymbol, rfl⟩
    · refine ⟨arrayReturn.toRule, hDeclaration _ (by simp [declarationRules]), rfl, ?_, ?_⟩
      · simp [DeclarationRule.toRule, arrayReturn, Declaration.kind, hKind]
      · exact (hDeclares _).2 ⟨_, element, hSymbol, hReturn⟩

theorem filterMap_eq_toList_findSome? {α β : Type} {f : α → Option β} {xs : List α}
    (hExclusive : xs.Pairwise fun a b => f a = none ∨ f b = none) :
    xs.filterMap f = (xs.findSome? f).toList := by
  induction xs with
  | nil => rfl
  | cons a rest ih =>
    rw [List.pairwise_cons] at hExclusive
    rw [List.filterMap_cons, List.findSome?_cons]
    cases hFirst : f a with
    | none => exact ih hExclusive.2
    | some b =>
      have hRest : rest.filterMap f = [] := by
        rw [List.filterMap_eq_nil_iff]
        intro c hc
        exact (hExclusive.1 c hc).resolve_left (by simp [hFirst])
      rw [hRest]
      rfl

theorem Engine.Configured.severity?_builtin {engine : Engine} {config : Config}
    (hEngine : engine.Configured config Catalogue.rules) {rule : Rule}
    (hRule : rule ∈ Catalogue.rules) :
    engine.severity? rule.id = config.severity? rule.id .warning := by
  rw [hEngine.severity?_of_mem hRule, Catalogue.severity_eq_warning hRule]

def Engine.report? (engine : Engine) (ctx : Context) (node : Node) : Option Finding :=
  (engine.registry.rulesFor node.kind).findSome? (engine.finding? ctx node)

theorem Engine.Configured.findings_visit_builtin {engine : Engine} {config : Config}
    (hEngine : engine.Configured config Catalogue.rules) (ctx : Context) (node : Node) :
    (engine.visit ctx node).findings = (engine.report? ctx node).toList := by
  have hOnce : ∀ rule ∈ engine.registry.rules, rule.kinds.Nodup := by
    rw [hEngine.rules]
    exact Catalogue.kinds_nodup
  have hSilent : ∀ rule : Rule, rule.report? ctx node = none →
      engine.finding? ctx node rule = none := by
    intro rule hRule
    simp [Engine.finding?, hRule]
  rw [Engine.findings_visit]
  apply filterMap_eq_toList_findSome?
  rw [Registry.rulesFor_eq_filter _ hOnce, List.pairwise_filter, hEngine.rules]
  refine (Catalogue.report?_exclusive ctx node).imp ?_
  intro a b hExclusive ha hb
  exact (hExclusive (of_decide_eq_true ha) (of_decide_eq_true hb)).imp (hSilent a) (hSilent b)

theorem Engine.Configured.report?_eq_some_iff {engine : Engine} {config : Config}
    (hEngine : engine.Configured config Catalogue.rules) {ctx : Context} {node : Node}
    {finding : Finding} :
    engine.report? ctx node = some finding ↔ ∃ rule ∈ Catalogue.rules, node.kind ∈ rule.kinds ∧
      ∃ severity reported, config.severity? rule.id .warning = some severity ∧
        rule.report? ctx node = some reported ∧ finding = { reported with severity } := by
  rw [← Option.mem_toList, ← hEngine.findings_visit_builtin, Engine.findings_visit,
    List.mem_filterMap]
  simp only [Registry.mem_rulesFor_iff, hEngine.rules, Engine.finding?_eq_some_iff,
    hEngine.suppressions, Suppression.hides, List.any_nil, and_true]
  constructor
  · rintro ⟨rule, ⟨hRule, hKind⟩, severity, reported, hSeverity, hReported⟩
    rw [hEngine.severity?_builtin hRule] at hSeverity
    exact ⟨rule, hRule, hKind, severity, reported, hSeverity, hReported⟩
  · rintro ⟨rule, hRule, hKind, severity, reported, hSeverity, hReported⟩
    rw [← hEngine.severity?_builtin hRule] at hSeverity
    exact ⟨rule, ⟨hRule, hKind⟩, severity, reported, hSeverity, hReported⟩

theorem Engine.Configured.findings_analyze_builtin {engine : Engine} {config : Config}
    (hEngine : engine.Configured config Catalogue.rules) (arena : Arena) (model : Model) :
    (engine.analyze arena model fun _ => false).findings =
      some (arena.nodes.filterMap (engine.report? (engine.context arena model))) := by
  rw [hEngine.neverStops.findings_analyze_never, List.filterMap_eq_flatMap_toList]
  simp only [hEngine.findings_visit_builtin]

/-- The built-in rules report exactly the flagged nodes, at most once each and in their order. -/
theorem analyze_reports_flagged {snapshot : Snapshot} {config : Config} {engine : Engine}
    {arena : Arena} {model : Model} (hLoad : snapshot.load = .ok (arena, model))
    (hEngine : (Engine.ofConfig config).value = .ok engine) :
    ∃ report : SnapshotNode → Option Finding,
      (engine.analyze arena model fun _ => false).findings =
        some (snapshot.nodes.filterMap report) ∧
      ∀ n ∈ snapshot.nodes,
        (∀ id, (∃ finding, report n = some finding ∧ finding.rule = id) ↔
          (∃ severity, config.severity? id .warning = some severity) ∧
            Flagged config.semantics snapshot n id) ∧
        ∀ finding, report n = some finding → finding.IsAt snapshot.file n.node ∧
          config.severity? finding.rule .warning = some finding.severity := by
  have hConfigured : engine.Configured config Catalogue.rules := .of_ofRules hEngine
  obtain ⟨hFile, hNodes, hModel⟩ := Snapshot.load_eq_ok_iff.1 hLoad
  have hCtx : (engine.context arena model).Shows snapshot :=
    ⟨.of_load hLoad, hFile, hNodes, hModel⟩
  refine ⟨fun n => engine.report? (engine.context arena model) n.node, ?_, ?_⟩
  · rw [hConfigured.findings_analyze_builtin, hNodes, List.filterMap_map]
    rfl
  · intro n hn
    constructor
    · intro id
      rw [← Catalogue.reports_iff hCtx hConfigured.names hConfigured.facade hn]
      constructor
      · rintro ⟨finding, hFinding, rfl⟩
        obtain ⟨rule, hRule, hKind, severity, reported, hSeverity, hReported, rfl⟩ :=
          hConfigured.report?_eq_some_iff.1 hFinding
        obtain ⟨hId, -⟩ := Catalogue.report?_isAt hRule hReported
        exact ⟨⟨severity, hId ▸ hSeverity⟩, rule, hRule, hId.symm, hKind, reported, hReported⟩
      · rintro ⟨⟨severity, hSeverity⟩, rule, hRule, rfl, hKind, reported, hReported⟩
        obtain ⟨hId, -⟩ := Catalogue.report?_isAt hRule hReported
        have hFinding := hConfigured.report?_eq_some_iff.2
          ⟨rule, hRule, hKind, severity, reported, hSeverity, hReported, rfl⟩
        exact ⟨{ reported with severity }, hFinding, hId⟩
    · intro finding hFinding
      obtain ⟨rule, hRule, -, severity, reported, hSeverity, hReported, rfl⟩ :=
        hConfigured.report?_eq_some_iff.1 hFinding
      obtain ⟨hId, hAt⟩ := Catalogue.report?_isAt hRule hReported
      exact ⟨⟨hAt.file.trans hCtx.file, hAt.line, hAt.column, hAt.endLine, hAt.endColumn⟩,
        hId ▸ hSeverity⟩

def orderList : Snapshot where
  file := ⟨"src/Orders.cs"⟩
  types := ⟨[("Shop.OrderList", { base := some "Shop.OrderStream" }),
    ("Shop.OrderStream", { interfaces := ["System.Collections.IEnumerable"] })], by decide +kernel⟩
  nodes := [
    { node := { id := ⟨1⟩, shape := .identifier "orders" }
      type := some (.named "Shop.OrderList") },
    { node := { id := ⟨2⟩, shape := .memberAccess ⟨1⟩ "Contains" } },
    { node := { id := ⟨3⟩, span := { line := 5, column := 12 }, shape := .invocation ⟨2⟩ [] }
      symbol := some (.method {
        name := "Contains", containingType := some "System.Linq.Enumerable"
        parameterCount := 1 }) }]

theorem orderList_inherits :
    orderList.types.Inherits "Shop.OrderList" "System.Collections.IEnumerable" := by
  refine ⟨by decide, "Shop.OrderStream", .single ⟨{ base := some "Shop.OrderStream" }, ?_, .inr rfl⟩,
    { interfaces := ["System.Collections.IEnumerable"] }, ?_, List.mem_singleton_self _⟩
  · decide +kernel
  · decide +kernel

theorem analyze_reports_flagged_orderList :
    ∃ arena model engine findings finding, orderList.load = .ok (arena, model) ∧
      (Engine.ofConfig {}).value = .ok engine ∧
      (engine.analyze arena model fun _ => false).findings = some findings ∧
      finding ∈ findings ∧ finding.rule = ⟨10⟩ ∧ finding.line = 5 := by
  have hWellFormed : orderList.WellFormed := ⟨by decide, by decide⟩
  obtain ⟨⟨arena, model⟩, hLoad⟩ := Snapshot.exists_load_iff.2 hWellFormed
  obtain ⟨engine, hEngine⟩ : ∃ engine, (Engine.ofConfig {}).value = .ok engine := ⟨_, rfl⟩
  obtain ⟨report, hFindings, hReport⟩ := analyze_reports_flagged hLoad hEngine
  have hCall : orderList.nodes[2] ∈ orderList.nodes := List.getElem_mem _
  have hFlags : Catalogue.containsOnSequence.Flags {} orderList orderList.nodes[2]
      orderList.nodes[0] ⟨"Contains", some "System.Linq.Enumerable", 1, none⟩
      (.named "Shop.OrderList") := {
    kind := by decide
    receiver := List.getElem_mem _
    callsOn := .inr ⟨orderList.nodes[1], List.getElem_mem _, ⟨[], rfl⟩, "Contains", rfl⟩
    symbol := rfl
    operation := by decide
    arity := by decide
    declaring := by decide +kernel
    receiverType := rfl
    known := .inr ⟨_, rfl⟩
    meets := .named orderList_inherits }
  have hFlagged : Flagged {} orderList orderList.nodes[2] ⟨10⟩ :=
    .call (by simp [Catalogue.callRules]) hFlags
  obtain ⟨finding, hFinding, hRule⟩ :=
    ((hReport _ hCall).1 ⟨10⟩).2 ⟨⟨.warning, by decide +kernel⟩, hFlagged⟩
  exact ⟨arena, model, engine, _, finding, hLoad, hEngine, hFindings,
    List.mem_filterMap.2 ⟨_, hCall, hFinding⟩, hRule, ((hReport _ hCall).2 finding hFinding).1.line⟩

end CostlyCalls
