import Mathlib.Data.List.Flatten
import CostlyCalls.Proofs.CallSites
import CostlyCalls.Proofs.Visits

/-!
# More type declarations

A front end may export more about the types of a file: further types, further interfaces of a type,
a base where none was known. Chains of declarations then stay chains, so a type keeps its
capabilities and may gain some. Only one built-in rule asks for a capability to be missing: its
findings can vanish, and those of all other rules stay as they are.
-/

set_option autoImplicit false

namespace CostlyCalls

namespace TypeTable

/-- Every entry of the table has a counterpart in the wider one, with all of its interfaces and with
its base, if it has one. -/
def Within (table wider : TypeTable) : Prop :=
  ∀ name entry, table.find? name = some entry → ∃ larger, wider.find? name = some larger ∧
    (∀ interface ∈ entry.interfaces, interface ∈ larger.interfaces) ∧
    ∀ base, entry.base = some base → larger.base = some base

variable {table wider : TypeTable} (hWithin : table.Within wider)
include hWithin

theorem Within.declares {lower upper : String} (hDeclares : table.Declares lower upper) :
    wider.Declares lower upper := by
  obtain ⟨entry, hFind, hUpper⟩ := hDeclares
  obtain ⟨larger, hLarger, hInterfaces, hBase⟩ := hWithin lower entry hFind
  exact ⟨larger, hLarger, hUpper.imp (hInterfaces upper) (hBase upper)⟩

theorem Within.declaresInterface {lower upper : String}
    (hDeclares : table.DeclaresInterface lower upper) : wider.DeclaresInterface lower upper := by
  obtain ⟨entry, hFind, hUpper⟩ := hDeclares
  obtain ⟨larger, hLarger, hInterfaces, -⟩ := hWithin lower entry hFind
  exact ⟨larger, hLarger, hInterfaces upper hUpper⟩

theorem Within.reaches {lower upper : String} (hReaches : table.Reaches lower upper) :
    wider.Reaches lower upper :=
  Relation.ReflTransGen.mono (fun _ _ => hWithin.declares) _ _ hReaches

theorem Within.inherits {name interface : String} (hInherits : table.Inherits name interface) :
    wider.Inherits name interface := by
  obtain ⟨hOther, lower, hReaches, hDeclares⟩ := hInherits
  exact ⟨hOther, lower, hWithin.reaches hReaches, hWithin.declaresInterface hDeclares⟩

theorem Within.interfacesOf {name interface : String}
    (hInterface : interface ∈ table.interfacesOf name) : interface ∈ wider.interfacesOf name :=
  mem_interfacesOf_iff.2 (hWithin.inherits (mem_interfacesOf_iff.1 hInterface))

end TypeTable

structure Model.Within (model wider : Model) : Prop where
  symbol? : wider.symbol? = model.symbol?
  type? : wider.type? = model.type?
  interfaces : ∀ name, ∀ interface ∈ model.interfaces name, interface ∈ wider.interfaces name

theorem CapabilityTable.has_of_within {table : CapabilityTable} {model wider : Model}
    (hWithin : model.Within wider) {type : StaticType} {capability : Capability}
    (hHas : table.has model type capability = true) : table.has wider type capability = true := by
  cases type with
  | named name =>
    rw [has, List.contains_iff_mem] at hHas ⊢
    exact hWithin.interfaces name _ hHas
  | array | parameter | dynamic | unresolved => exact hHas

namespace Predicate

def isNegated : Predicate → Bool
  | .lacks _ => true
  | .has _ | .isArray | .isNotArray => false

theorem holds_of_within {predicate : Predicate} (hPositive : predicate.isNegated = false)
    {table : CapabilityTable} {model wider : Model} (hWithin : model.Within wider)
    {type : StaticType} (hHolds : predicate.holds table model type = true) :
    predicate.holds table wider type = true := by
  unfold holds at hHolds ⊢
  rw [Bool.and_eq_true] at hHolds ⊢
  refine ⟨hHolds.1, ?_⟩
  cases predicate with
  | has capability => exact CapabilityTable.has_of_within hWithin hHolds.2
  | lacks capability => cases hPositive
  | isArray | isNotArray => exact hHolds.2

theorem holds_of_wider {predicate : Predicate} (hNegated : predicate.isNegated = true)
    {table : CapabilityTable} {model wider : Model} (hWithin : model.Within wider)
    {type : StaticType} (hHolds : predicate.holds table wider type = true) :
    predicate.holds table model type = true := by
  unfold holds at hHolds ⊢
  rw [Bool.and_eq_true] at hHolds ⊢
  refine ⟨hHolds.1, ?_⟩
  cases predicate with
  | lacks capability =>
    have hMissing := hHolds.2
    simp only [Bool.not_eq_true', ← Bool.not_eq_true] at hMissing ⊢
    exact mt (CapabilityTable.has_of_within hWithin) hMissing
  | has | isArray | isNotArray => cases hNegated

end Predicate

structure Context.SameNodes (ctx other : Context) : Prop where
  arena : other.arena = ctx.arena
  table : other.table = ctx.table
  facade : other.facade = ctx.facade
  symbol? : other.model.symbol? = ctx.model.symbol?
  type? : other.model.type? = ctx.model.type?

section

variable {ctx other : Context} (hSame : ctx.SameNodes other)
include hSame

theorem CallSite.receiver?_sameNodes (node : Node) :
    CallSite.receiver? other node = CallSite.receiver? ctx node := by
  unfold receiver? Context.node?
  rw [hSame.arena]

theorem CallSite.find?_sameNodes {node : Node} {operation : String} {predicate : Predicate}
    (hHolds : ∀ type, predicate.holds ctx.table ctx.model type = true →
      predicate.holds ctx.table other.model type = true) {site : CallSite}
    (hFind : CallSite.find? ctx node operation predicate = some site) :
    CallSite.find? other node operation predicate = some site := by
  obtain ⟨receiver, method, type, hReceiver, hSymbol, hName, hArity, hDeclaring, hType, hMeets,
    rfl⟩ := find?_eq_some_iff.1 hFind
  rw [find?_eq_some_iff, receiver?_sameNodes hSame, hSame.symbol?, hSame.type?, hSame.facade,
    hSame.table]
  exact ⟨receiver, method, type, hReceiver, hSymbol, hName, hArity, hDeclaring, hType,
    hHolds type hMeets, rfl⟩

theorem CallRule.finding?_sameNodes {rule : CallRule} {node : Node}
    (hHolds : ∀ type, rule.predicate.holds ctx.table ctx.model type = true →
      rule.predicate.holds ctx.table other.model type = true) {finding : Finding}
    (hFinding : rule.finding? ctx node = some finding) :
    rule.finding? other node = some finding := by
  obtain ⟨site, hSite, rfl⟩ := Option.map_eq_some_iff.1 hFinding
  obtain ⟨operation, hOperation, hFind⟩ := site?_eq_some_iff.1 hSite
  have hOther := site?_eq_some_iff.2
    ⟨operation, hOperation, CallSite.find?_sameNodes hSame hHolds hFind⟩
  refine Option.map_eq_some_iff.2 ⟨site, hOther, ?_⟩
  simp only [Finding.atNode, subject, Context.file, Context.node?, hSame.arena]

theorem DeclarationRule.finding?_sameNodes (rule : DeclarationRule) (node : Node) :
    rule.finding? other node = rule.finding? ctx node := by
  simp only [finding?, hSame.symbol?, Finding.atNode, Context.file, hSame.arena]

end

theorem Context.SameNodes.symm {ctx other : Context} (hSame : ctx.SameNodes other) :
    other.SameNodes ctx :=
  ⟨hSame.arena.symm, hSame.table.symm, hSame.facade.symm, hSame.symbol?.symm, hSame.type?.symm⟩

namespace Catalogue

theorem id_declarationRules : ∀ rule ∈ declarationRules, rule.id ≠ ⟨1004⟩ := by
  decide

theorem isNegated_iff :
    ∀ rule ∈ callRules, (rule.predicate.isNegated = true ↔ rule.id = ⟨1004⟩) := by
  decide

theorem report?_of_within {ctx wider : Context} (hSame : ctx.SameNodes wider)
    (hWithin : ctx.model.Within wider.model) {rule : Rule} (hRule : rule ∈ rules)
    (hId : rule.id ≠ ⟨1004⟩) {node : Node} {finding : Finding}
    (hReport : rule.report? ctx node = some finding) :
    rule.report? wider node = some finding := by
  rcases List.mem_append.1 hRule with hRule | hRule
  · obtain ⟨declaration, -, rfl⟩ := List.mem_map.1 hRule
    rw [DeclarationRule.report?_toRule] at hReport ⊢
    rw [DeclarationRule.finding?_sameNodes hSame, hReport]
  · obtain ⟨call, hCall, rfl⟩ := List.mem_map.1 hRule
    have hPositive : call.predicate.isNegated = false :=
      Bool.eq_false_iff.2 (mt (isNegated_iff call hCall).1 hId)
    rw [CallRule.report?_toRule] at hReport ⊢
    exact CallRule.finding?_sameNodes hSame
      (fun _ => Predicate.holds_of_within hPositive hWithin) hReport

theorem report?_of_wider {ctx wider : Context} (hSame : ctx.SameNodes wider)
    (hWithin : ctx.model.Within wider.model) {rule : Rule} (hRule : rule ∈ rules)
    (hId : rule.id = ⟨1004⟩) {node : Node} {finding : Finding}
    (hReport : rule.report? wider node = some finding) :
    rule.report? ctx node = some finding := by
  rcases List.mem_append.1 hRule with hRule | hRule
  · obtain ⟨declaration, hDeclaration, rfl⟩ := List.mem_map.1 hRule
    exact absurd hId (id_declarationRules declaration hDeclaration)
  · obtain ⟨call, hCall, rfl⟩ := List.mem_map.1 hRule
    have hNegated : call.predicate.isNegated = true := (isNegated_iff call hCall).2 hId
    rw [CallRule.report?_toRule] at hReport ⊢
    exact CallRule.finding?_sameNodes hSame.symm
      (fun _ => Predicate.holds_of_wider hNegated hWithin) hReport

end Catalogue

theorem filterMap_sublist {α β : Type} {f g : α → Option β} {xs : List α}
    (hMore : ∀ a ∈ xs, ∀ b, f a = some b → g a = some b) :
    (xs.filterMap f).Sublist (xs.filterMap g) := by
  induction xs with
  | nil => exact .refl []
  | cons a rest ih =>
    have hRest := ih fun x hx => hMore x (List.mem_cons_of_mem _ hx)
    rw [List.filterMap_cons, List.filterMap_cons]
    cases hFirst : f a with
    | none =>
      cases g a with
      | none => exact hRest
      | some b => exact hRest.cons b
    | some b =>
      rw [hMore a List.mem_cons_self b hFirst]
      exact hRest.cons_cons b

namespace Engine

theorem finding?_of_report? {engine : Engine} {ctx other : Context} {node : Node} {rule : Rule}
    (hReport : ∀ finding, rule.report? ctx node = some finding →
      rule.report? other node = some finding) {finding : Finding}
    (hFinding : engine.finding? ctx node rule = some finding) :
    engine.finding? other node rule = some finding := by
  obtain ⟨severity, reported, hSeverity, hReported, rfl, hShown⟩ := finding?_eq_some_iff.1 hFinding
  exact finding?_eq_some_iff.2
    ⟨severity, reported, hSeverity, hReport reported hReported, rfl, hShown⟩

/-- If the reports of some rules carry over from one model to another, so do their findings in a
run, with their order and as often as they occur. -/
theorem complete_filter_sublist {engine : Engine}
    (hOwn : ∀ rule ∈ engine.registry.rules, rule.ReportsOwnId) {arena : Arena}
    {model other : Model} (keep : RuleId → Bool)
    (hReport : ∀ rule ∈ engine.registry.rules, keep rule.id = true → ∀ node finding,
      rule.report? (engine.context arena model) node = some finding →
        rule.report? (engine.context arena other) node = some finding) :
    ((engine.complete arena model).filter fun f => keep f.rule).Sublist
      ((engine.complete arena other).filter fun f => keep f.rule) := by
  simp only [complete, List.filter_flatMap, List.filter_filterMap]
  apply List.Sublist.flatMap_right
  intro node _
  apply filterMap_sublist
  intro rule hRule finding hFinding
  have hMem := (Registry.mem_rulesFor_iff.1 hRule).1
  obtain ⟨hFound, hKeep⟩ := Option.filter_eq_some_iff.1 hFinding
  rw [rule_of_finding? (hOwn rule hMem) hFound] at hKeep
  have hOther := finding?_of_report? (hReport rule hMem hKeep node) hFound
  exact Option.filter_eq_some_iff.2 ⟨hOther, (Option.filter_eq_some_iff.1 hFinding).2⟩

end Engine

theorem Snapshot.model_within {snapshot wider : Snapshot} (hNodes : wider.nodes = snapshot.nodes)
    (hTypes : snapshot.types.Within wider.types) : snapshot.model.Within wider.model where
  symbol? := by simp only [model, modelOf, hNodes]
  type? := by simp only [model, modelOf, hNodes]
  interfaces _ _ := hTypes.interfacesOf

theorem Snapshot.load_of_nodes_eq {snapshot other : Snapshot} (hFile : other.file = snapshot.file)
    (hNodes : other.nodes = snapshot.nodes) {arena : Arena} {model : Model}
    (hLoad : snapshot.load = .ok (arena, model)) : other.load = .ok (arena, other.model) := by
  obtain ⟨hArenaFile, hArenaNodes, -⟩ := load_eq_ok_iff.1 hLoad
  exact load_eq_ok_iff.2 ⟨hArenaFile.trans hFile.symm, hNodes ▸ hArenaNodes, rfl⟩

/-- More type declarations keep the findings of the built-in rules, but for the one that asks for a
capability to be missing, which finds no more. -/
theorem analyze_monotone_in_types {engine : Engine}
    (hRules : ∀ rule ∈ engine.registry.rules, rule ∈ Catalogue.rules) {snapshot wider : Snapshot}
    (hFile : wider.file = snapshot.file) (hNodes : wider.nodes = snapshot.nodes)
    (hTypes : snapshot.types.Within wider.types) {arena : Arena} {model : Model}
    (hLoad : snapshot.load = .ok (arena, model)) :
    ∃ widerArena widerModel findings found,
      wider.load = .ok (widerArena, widerModel) ∧
      (engine.analyze arena model fun _ => false).findings = some findings ∧
      (engine.analyze widerArena widerModel fun _ => false).findings = some found ∧
      (findings.filter fun f => f.rule ≠ ⟨1004⟩).Sublist (found.filter fun f => f.rule ≠ ⟨1004⟩) ∧
      (found.filter fun f => f.rule = ⟨1004⟩).Sublist
        (findings.filter fun f => f.rule = ⟨1004⟩) := by
  have hStandard : ∀ rule ∈ engine.registry.rules, rule.IsStandard := fun rule hRule =>
    Catalogue.isStandard (hRules rule hRule)
  have hNever : engine.NeverStops := fun rule hRule => (hStandard rule hRule).neverStops
  have hOwn : ∀ rule ∈ engine.registry.rules, rule.ReportsOwnId := fun rule hRule =>
    (hStandard rule hRule).reportsOwnId
  obtain ⟨-, -, rfl⟩ := Snapshot.load_eq_ok_iff.1 hLoad
  have hWithin := Snapshot.model_within hNodes hTypes
  have hSame : (engine.context arena snapshot.model).SameNodes
      (engine.context arena wider.model) :=
    ⟨rfl, rfl, rfl, hWithin.symbol?, hWithin.type?⟩
  refine ⟨arena, wider.model, _, _, Snapshot.load_of_nodes_eq hFile hNodes hLoad,
    hNever.findings_analyze_complete arena _, hNever.findings_analyze_complete arena _, ?_, ?_⟩
  · apply Engine.complete_filter_sublist hOwn (fun id => id ≠ ⟨1004⟩)
    intro rule hRule hId node finding
    exact Catalogue.report?_of_within hSame hWithin (hRules rule hRule) (of_decide_eq_true hId)
  · apply Engine.complete_filter_sublist hOwn (fun id => id = ⟨1004⟩)
    intro rule hRule hId node finding
    exact Catalogue.report?_of_wider hSame hWithin (hRules rule hRule) (of_decide_eq_true hId)

def narrowOrders : Snapshot where
  file := ⟨"src/Orders.cs"⟩
  types := ⟨[("Shop.Orders", { interfaces := ["System.Collections.IEnumerable"] })],
    by decide +kernel⟩
  nodes := [
    { node := { id := ⟨1⟩, shape := .identifier "orders" }
      type := some (.named "Shop.Orders") },
    { node := { id := ⟨2⟩, shape := .memberAccess ⟨1⟩ "Contains" } },
    { node := { id := ⟨3⟩, shape := .invocation ⟨2⟩ [] }
      symbol := some (.method {
        name := "Contains", containingType := some "System.Linq.Enumerable"
        parameterCount := 1 }) },
    { node := { id := ⟨4⟩, shape := .memberAccess ⟨1⟩ "ToList" } },
    { node := { id := ⟨5⟩, shape := .invocation ⟨4⟩ [] }
      symbol := some (.method {
        name := "ToList", containingType := some "System.Linq.Enumerable" }) }]

def wideOrders : Snapshot :=
  { narrowOrders with
    types := ⟨[("Shop.List", { interfaces := ["System.Collections.IList"] }),
      ("Shop.Orders", {
        interfaces := ["System.Collections.IEnumerable"], base := some "Shop.List" })],
      by decide +kernel⟩ }

theorem narrowOrders_within : narrowOrders.types.Within wideOrders.types := by
  intro name entry hFind
  by_cases hName : name = "Shop.Orders"
  · subst hName
    have hEntry : entry = { interfaces := ["System.Collections.IEnumerable"] } := by
      simpa [narrowOrders, TypeTable.find?, eq_comm] using hFind
    subst hEntry
    exact ⟨_, rfl, fun _ hInterface => hInterface, fun _ hBase => nomatch hBase⟩
  · have hOther : (name == "Shop.Orders") = false := beq_false_of_ne hName
    simp [narrowOrders, TypeTable.find?, List.lookup_cons, hOther] at hFind

theorem analyze_monotone_in_types_orders :
    ∃ engine arena model widerArena widerModel findings found,
      (Engine.ofConfig {}).value = .ok engine ∧ narrowOrders.load = .ok (arena, model) ∧
      wideOrders.load = .ok (widerArena, widerModel) ∧
      (engine.analyze arena model fun _ => false).findings = some findings ∧
      (engine.analyze widerArena widerModel fun _ => false).findings = some found ∧
      findings.map Finding.rule = [⟨10⟩, ⟨1004⟩] ∧
      (findings.filter fun f => f.rule ≠ ⟨1004⟩).Sublist (found.filter fun f => f.rule ≠ ⟨1004⟩) ∧
      (found.filter fun f => f.rule = ⟨1004⟩).Sublist
        (findings.filter fun f => f.rule = ⟨1004⟩) := by
  obtain ⟨engine, arena, hEngine, hRules, hLoad, hBoth⟩ :
      ∃ engine arena, (Engine.ofConfig {}).value = .ok engine ∧
        (∀ rule ∈ engine.registry.rules, rule ∈ Catalogue.rules) ∧
        narrowOrders.load = .ok (arena, narrowOrders.model) ∧
        (engine.analyze arena narrowOrders.model fun _ => false).findings.map
          (List.map Finding.rule) = some [⟨10⟩, ⟨1004⟩] :=
    ⟨_, _, rfl, fun _ hRule => hRule, rfl, by decide +kernel⟩
  have hFile : wideOrders.file = narrowOrders.file := rfl
  obtain ⟨widerArena, widerModel, findings, found, hWider, hFindings, hFound, hKept, hLost⟩ :=
    analyze_monotone_in_types hRules hFile rfl narrowOrders_within hLoad
  rw [hFindings, Option.map_some, Option.some_inj] at hBoth
  exact ⟨engine, arena, _, widerArena, widerModel, findings, found, hEngine, hLoad, hWider,
    hFindings, hFound, hBoth, hKept, hLost⟩

end CostlyCalls
