import CostlyCalls.Proofs.Visits

/-!
# Constructing engines

What is known of an engine that was built from a configuration and a list of rules: it holds these
rules in their order, the configured names, and for every rule the severity that the configuration
gives to it.
-/

set_option autoImplicit false

namespace CostlyCalls

theorem Registry.rules_of_ofRules {rules : List Rule} {registry : Registry}
    (hRegistry : Registry.ofRules rules = .ok registry) : registry.rules = rules := by
  unfold ofRules at hRegistry
  split at hRegistry
  · cases hRegistry
  · cases hRegistry
    rfl

theorem CapabilityTable.names_of_ofNames {names : CapabilityNames} {table : CapabilityTable}
    (hTable : CapabilityTable.ofNames names = .ok table) : table.names = names := by
  unfold ofNames at hTable
  split at hTable
  · cases hTable
  · cases hTable
    rfl

theorem CapabilityTable.ext_names {a b : CapabilityTable} (hNames : a.names = b.names) :
    a = b := by
  cases a
  cases b
  cases hNames
  rfl

namespace Engine

theorem registry_of_ofRegistry {config : Config} {registry : Registry} {engine : Engine}
    (hEngine : (ofRegistry config registry).value = .ok engine) : engine.registry = registry := by
  unfold ofRegistry at hEngine
  split at hEngine
  · cases hEngine
  · split at hEngine
    · cases hEngine
    · cases hEngine
      rfl

/-- Whether an engine can be built depends on the configured names alone. With the same names, other
rules and other settings give an engine that differs in these. -/
theorem ofRegistry_of_semantics {config other : Config} {registry : Registry} {engine : Engine}
    (hSemantics : other.semantics = config.semantics)
    (hEngine : (ofRegistry config registry).value = .ok engine) (rules : Registry) :
    (ofRegistry other rules).value =
      .ok { engine with registry := rules, enabled := enabledRules other rules } := by
  unfold ofRegistry at hEngine ⊢
  rw [hSemantics]
  split at hEngine
  · cases hEngine
  · split at hEngine
    · cases hEngine
    · next hFacade =>
      cases hEngine
      rw [if_neg hFacade]

structure Configured (engine : Engine) (config : Config) (rules : List Rule) : Prop where
  rules : engine.registry.rules = rules
  names : engine.table.names = config.semantics.capabilities
  facade : engine.facade = Text.trim config.semantics.facade
  enabled : engine.enabled = enabledRules config engine.registry
  suppressions : engine.suppressions = []

theorem Configured.of_ofRegistry {config : Config} {registry : Registry} {engine : Engine}
    (hEngine : (ofRegistry config registry).value = .ok engine) :
    engine.Configured config registry.rules := by
  unfold ofRegistry at hEngine
  split at hEngine
  · cases hEngine
  · next table hTable =>
    split at hEngine
    · cases hEngine
    · cases hEngine
      exact ⟨rfl, CapabilityTable.names_of_ofNames hTable, rfl, rfl, rfl⟩

theorem ofRules_eq_ok_iff {config : Config} {rules : List Rule} {engine : Engine} :
    (ofRules config rules).value = .ok engine ↔
      ∃ registry, Registry.ofRules rules = .ok registry ∧
        (ofRegistry config registry).value = .ok engine := by
  unfold ofRules
  cases hRules : Registry.ofRules rules with
  | error fault =>
    have hRegister : (register rules).value = .error (.ofRegistry fault) := by
      simp only [register, hRules]
    rw [Logged.andThen_error _ hRegister]
    simp
  | ok registry =>
    have hRegister : (register rules).value = .ok registry := by
      simp only [register, hRules]
    rw [Logged.andThen_ok _ hRegister]
    simp

theorem Configured.of_ofRules {config : Config} {rules : List Rule} {engine : Engine}
    (hEngine : (ofRules config rules).value = .ok engine) : engine.Configured config rules := by
  obtain ⟨registry, hRegistry, hEngine⟩ := ofRules_eq_ok_iff.1 hEngine
  exact Registry.rules_of_ofRules hRegistry ▸ .of_ofRegistry hEngine

theorem lookup_filterMap_rules {rules : List Rule} (hDistinct : (rules.map Rule.id).Nodup)
    (severityOf : Rule → Option Severity) (id : RuleId) :
    (rules.filterMap fun rule => (severityOf rule).map (rule.id, ·)).lookup id =
      (rules.find? fun rule => rule.id == id).bind severityOf := by
  induction rules with
  | nil => rfl
  | cons rule rest ih =>
    rw [List.map_cons, List.nodup_cons] at hDistinct
    have hRest := ih hDistinct.2
    by_cases hId : rule.id = id
    · subst hId
      rw [List.find?_cons_of_pos (by simp), Option.bind_some, List.filterMap_cons]
      cases hSeverity : severityOf rule with
      | none =>
        have hNone : (rest.find? fun other => other.id == rule.id) = none := by
          rw [List.find?_eq_none]
          intro other hOther hEq
          exact hDistinct.1 (eq_of_beq hEq ▸ List.mem_map_of_mem hOther)
        rw [Option.map_none, hRest, hNone]
        rfl
      | some severity => simp
    · rw [List.find?_cons_of_neg (by simpa using hId), List.filterMap_cons, ← hRest]
      cases severityOf rule with
      | none => rfl
      | some severity =>
        have hBeq : (id == rule.id) = false := by simpa using Ne.symm hId
        simp [List.lookup_cons, hBeq]

theorem Configured.severity? {engine : Engine} {config : Config} {rules : List Rule}
    (hEngine : engine.Configured config rules) (id : RuleId) :
    engine.severity? id =
      (engine.registry.get? id).bind fun rule => config.severity? rule.id rule.severity := by
  rw [Engine.severity?, hEngine.enabled, enabledRules, Registry.get?_eq_find?]
  exact lookup_filterMap_rules engine.registry.distinct
    (fun rule => config.severity? rule.id rule.severity) id

theorem Configured.severity?_of_mem {engine : Engine} {config : Config} {rules : List Rule}
    (hEngine : engine.Configured config rules) {rule : Rule} (hRule : rule ∈ rules) :
    engine.severity? rule.id = config.severity? rule.id rule.severity := by
  have hGet : engine.registry.get? rule.id = some rule :=
    Registry.get?_eq_some_iff.2 ⟨hEngine.rules ▸ hRule, rfl⟩
  rw [hEngine.severity?, hGet, Option.bind_some]

theorem Configured.severity?_of_not_mem {engine : Engine} {config : Config} {rules : List Rule}
    (hEngine : engine.Configured config rules) {id : RuleId} (hId : id ∉ rules.map Rule.id) :
    engine.severity? id = none := by
  have hGet : engine.registry.get? id = none := by
    rw [Option.eq_none_iff_forall_ne_some]
    intro rule hRule
    obtain ⟨hMem, rfl⟩ := Registry.get?_eq_some_iff.1 hRule
    exact hId (List.mem_map_of_mem (hEngine.rules ▸ hMem))
  rw [hEngine.severity?, hGet, Option.bind_none]

theorem Configured.neverStops {engine : Engine} {config : Config}
    (hEngine : engine.Configured config Catalogue.rules) : engine.NeverStops := by
  intro rule hRule
  rw [hEngine.rules] at hRule
  exact Catalogue.neverStops hRule

/-- The engine as it is used: perhaps restricted to some rules, and with suppressions. -/
def under (engine : Engine) (restriction : Option (List RuleId))
    (suppressions : List Suppression) : Engine :=
  (restriction.elim engine engine.restrictTo).withSuppressions suppressions

def runUnder (engine : Engine) (restriction : Option (List RuleId))
    (suppressions : List Suppression) (arena : Arena) (model : Model) : Run :=
  (engine.under restriction suppressions).analyze arena model fun _ => false

end Engine

end CostlyCalls
