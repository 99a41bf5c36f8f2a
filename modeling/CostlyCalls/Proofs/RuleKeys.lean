import CostlyCalls.Config.FromToml
import CostlyCalls.Proofs.Selection
import CostlyCalls.Proofs.Spellings
import CostlyCalls.Proofs.Suppressions

/-!
# Keys that are reported as unknown

A key of the rules section that names no built-in rule is reported when a configuration is read, and
the report says that it will be ignored. An engine does not ask for reports: it takes the setting of
any key that denotes one of its rules. So a reported key is without effect for the built-in rules,
but not for a rule of one's own whose severity it changes.
-/

set_option autoImplicit false

namespace CostlyCalls

namespace Config

theorem filter_denoting_eq_singleton {rules : List (String × Setting)}
    (hUnique : ambiguity? rules = none) {entry : String × Setting} (hEntry : entry ∈ rules)
    {id : RuleId} (hDenotes : RuleId.parse? entry.1 = some id) :
    (rules.filter fun r => RuleId.parse? r.1 = some id) = [entry] := by
  have hMem : entry ∈ rules.filter fun r => RuleId.parse? r.1 = some id :=
    List.mem_filter.2 ⟨hEntry, decide_eq_true hDenotes⟩
  obtain ⟨other, hOther⟩ := List.length_eq_one_iff.1
    (Nat.le_antisymm (ambiguity?_eq_none_iff.1 hUnique id) (List.length_pos_of_mem hMem))
  rw [hOther] at hMem ⊢
  rw [List.mem_singleton.1 hMem]

theorem setting?_of_mem {config : Config} (hUnique : ambiguity? config.rules = none)
    {entry : String × Setting} (hEntry : entry ∈ config.rules) {id : RuleId}
    (hDenotes : RuleId.parse? entry.1 = some id) : config.setting? id = some entry.2 := by
  rw [setting?, filter_denoting_eq_singleton hUnique hEntry hDenotes]
  rfl

def without (config : Config) (key : String) : Config :=
  { config with rules := config.rules.filter fun r => r.1 ≠ key }

theorem setting?_without {config : Config} (hUnique : ambiguity? config.rules = none)
    {entry : String × Setting} (hEntry : entry ∈ config.rules) (id : RuleId) :
    (config.without entry.1).setting? id =
      if RuleId.parse? entry.1 = some id then none else config.setting? id := by
  by_cases hDenotes : RuleId.parse? entry.1 = some id
  · rw [if_pos hDenotes, setting?_eq_none_iff]
    intro other hOther hSame
    obtain ⟨hMem, hKey⟩ := List.mem_filter.1 hOther
    have hSingle : other ∈ [entry] :=
      filter_denoting_eq_singleton hUnique hEntry hDenotes ▸
        List.mem_filter.2 ⟨hMem, decide_eq_true hSame⟩
    exact of_decide_eq_true hKey (congrArg Prod.fst (List.mem_singleton.1 hSingle))
  · have hEntries : ((config.without entry.1).rules.filter fun r => RuleId.parse? r.1 = some id) =
        config.rules.filter fun r => RuleId.parse? r.1 = some id := by
      rw [without, List.filter_filter]
      apply List.filter_congr
      intro other _
      have hOther : RuleId.parse? other.1 = some id → other.1 ≠ entry.1 :=
        fun hSame hKey => hDenotes (hKey ▸ hSame)
      simpa using hOther
    rw [if_neg hDenotes, setting?, setting?, hEntries]

theorem parse_eq_ok {text : String} {config : Config}
    (hConfig : (Config.parse text).value = .ok config) :
    ambiguity? config.rules = none ∧
      (Config.parse text).log = (unknownKeys config.rules).map .unknownConfigured := by
  unfold parse at hConfig ⊢
  split at hConfig
  · cases hConfig
  · next read hRead =>
    simp only [validate, Logged.map] at hConfig ⊢
    cases hAmbiguity : ambiguity? read.rules with
    | some ambiguity =>
      rw [hAmbiguity] at hConfig
      cases hConfig
    | none =>
      rw [hAmbiguity] at hConfig
      cases hConfig
      exact ⟨hAmbiguity, rfl⟩

theorem exists_entry_of_reported {text : String} {config : Config}
    (hConfig : (Config.parse text).value = .ok config) {key : String}
    (hReported : .unknownConfigured key ∈ (Config.parse text).log) :
    (∃ entry ∈ config.rules, entry.1 = key) ∧ Catalogue.isNamed key = false := by
  rw [(parse_eq_ok hConfig).2] at hReported
  obtain ⟨other, hOther, hEq⟩ := List.mem_map.1 hReported
  cases hEq
  obtain ⟨hKey, hUnnamed⟩ := List.mem_filter.1 hOther
  exact ⟨List.mem_map.1 hKey, by simpa using hUnnamed⟩

end Config

theorem Engine.Configured.severity?_without_iff {config : Config}
    (hUnique : Config.ambiguity? config.rules = none) {entry : String × Setting}
    (hEntry : entry ∈ config.rules) {rules : List Rule} {engine other : Engine}
    (hEngine : engine.Configured config rules)
    (hOther : other.Configured (config.without entry.1) rules) :
    (∀ id, engine.severity? id = other.severity? id) ↔
      ∀ rule ∈ rules, RuleId.parse? entry.1 = some rule.id →
        entry.2.severity? = some rule.severity := by
  have hDenoted : ∀ rule ∈ rules, RuleId.parse? entry.1 = some rule.id →
      engine.severity? rule.id = entry.2.severity? ∧
        other.severity? rule.id = some rule.severity := by
    intro rule hRule hDenotes
    rw [hEngine.severity?_of_mem hRule, hOther.severity?_of_mem hRule, Config.severity?,
      Config.severity?, Config.setting?_of_mem hUnique hEntry hDenotes,
      Config.setting?_without hUnique hEntry, if_pos hDenotes]
    exact ⟨rfl, rfl⟩
  constructor
  · intro hSame rule hRule hDenotes
    obtain ⟨hWith, hWithout⟩ := hDenoted rule hRule hDenotes
    rw [← hWith, hSame, hWithout]
  · intro hAnyway id
    by_cases hId : id ∈ rules.map Rule.id
    · obtain ⟨rule, hRule, rfl⟩ := List.mem_map.1 hId
      by_cases hDenotes : RuleId.parse? entry.1 = some rule.id
      · obtain ⟨hWith, hWithout⟩ := hDenoted rule hRule hDenotes
        rw [hWith, hWithout, hAnyway rule hRule hDenotes]
      · rw [hEngine.severity?_of_mem hRule, hOther.severity?_of_mem hRule, Config.severity?,
          Config.severity?, Config.setting?_without hUnique hEntry, if_neg hDenotes]
    · rw [hEngine.severity?_of_not_mem hId, hOther.severity?_of_not_mem hId]

/-- A key that is reported as ignored is ignored exactly if it does not change the severity of a
rule in the registry. -/
theorem reported_key_ignored_iff {text : String} {config : Config}
    (hConfig : (Config.parse text).value = .ok config) {key : String}
    (hReported : .unknownConfigured key ∈ (Config.parse text).log) {registry : Registry}
    {engine : Engine} (hEngine : (Engine.ofRegistry config registry).value = .ok engine) :
    ∃ setting other, (key, setting) ∈ config.rules ∧
      (Engine.ofRegistry (config.without key) registry).value = .ok other ∧
      ((∀ id, engine.severity? id = other.severity? id) ↔
        ∀ rule ∈ registry.rules, RuleId.parse? key = some rule.id →
          setting.severity? = some rule.severity) ∧
      ((∀ rule ∈ registry.rules, rule.id ∈ Catalogue.rules.map Rule.id) →
        ∀ id, engine.severity? id = other.severity? id) := by
  obtain ⟨hUnique, -⟩ := Config.parse_eq_ok hConfig
  obtain ⟨⟨entry, hEntry, rfl⟩, hUnnamed⟩ := Config.exists_entry_of_reported hConfig hReported
  have hSemantics : (config.without entry.1).semantics = config.semantics := rfl
  have hOther := Engine.ofRegistry_of_semantics hSemantics hEngine registry
  have hIff := Engine.Configured.severity?_without_iff hUnique hEntry (.of_ofRegistry hEngine)
    (.of_ofRegistry hOther)
  refine ⟨entry.2, _, hEntry, hOther, hIff, fun hBuiltin => hIff.2 ?_⟩
  intro rule hRule hDenotes
  have hNamed : Catalogue.isNamed entry.1 = true :=
    Catalogue.isNamed_eq_true_iff.2 ⟨rule.id, hDenotes, hBuiltin rule hRule⟩
  rw [hUnnamed] at hNamed
  cases hNamed

def houseText : String := "[rules]\nCOL9000 = \"allow\"\n"

def houseConfig : Config := { rules := [("COL9000", .allow)] }

theorem parse_houseText :
    Config.parse houseText = ⟨.ok houseConfig, [.unknownConfigured "COL9000"]⟩ := by
  have hValue : (Config.parse houseText).value = .ok houseConfig := by decide +kernel
  have hLog : (Config.parse houseText).log = [.unknownConfigured "COL9000"] := by decide +kernel
  rw [← hValue, ← hLog]

theorem reported_key_ignored_iff_builtin :
    ∃ engine other, (Config.parse houseText).value = .ok houseConfig ∧
      .unknownConfigured "COL9000" ∈ (Config.parse houseText).log ∧
      (Engine.ofRegistry houseConfig Registry.builtin).value = .ok engine ∧
      (Engine.ofRegistry (houseConfig.without "COL9000") Registry.builtin).value = .ok other ∧
      ∀ id, engine.severity? id = other.severity? id := by
  have hConfig : (Config.parse houseText).value = .ok houseConfig := by rw [parse_houseText]
  have hReported : .unknownConfigured "COL9000" ∈ (Config.parse houseText).log := by
    rw [parse_houseText]
    exact List.mem_singleton_self _
  obtain ⟨engine, hEngine⟩ : ∃ engine,
      (Engine.ofRegistry houseConfig Registry.builtin).value = .ok engine := ⟨_, rfl⟩
  obtain ⟨_, other, -, hOther, -, hBuiltin⟩ := reported_key_ignored_iff hConfig hReported hEngine
  exact ⟨engine, other, hConfig, hReported, hEngine, hOther,
    hBuiltin fun rule hRule => List.mem_map_of_mem hRule⟩

def houseRule : Rule where
  id := ⟨9000⟩
  name := "house-rule"
  kinds := [.literal]
  check ctx node := ⟨.report (.atNode ⟨9000⟩ .warning none ctx node "literal"), false⟩

/-- The key is reported as ignored, and yet switches off the rule that it denotes. -/
theorem reported_key_effective_houseRule :
    ∃ registry engine other, Registry.ofRules [houseRule] = .ok registry ∧
      (Config.parse houseText).value = .ok houseConfig ∧
      .unknownConfigured "COL9000" ∈ (Config.parse houseText).log ∧
      (Engine.ofRegistry houseConfig registry).value = .ok engine ∧
      (Engine.ofRegistry (houseConfig.without "COL9000") registry).value = .ok other ∧
      engine.severity? ⟨9000⟩ = none ∧ other.severity? ⟨9000⟩ = some .warning := by
  obtain ⟨registry, engine, other, hRegistry, hEngine, hOther, hWith, hWithout⟩ :
      ∃ registry engine other, Registry.ofRules [houseRule] = .ok registry ∧
        (Engine.ofRegistry houseConfig registry).value = .ok engine ∧
        (Engine.ofRegistry (houseConfig.without "COL9000") registry).value = .ok other ∧
        engine.severity? ⟨9000⟩ = none ∧ other.severity? ⟨9000⟩ = some .warning :=
    ⟨_, _, _, rfl, rfl, rfl, by decide +kernel, by decide +kernel⟩
  refine ⟨registry, engine, other, hRegistry, ?_, ?_, hEngine, hOther, hWith, hWithout⟩
  · rw [parse_houseText]
  · rw [parse_houseText]
    exact List.mem_singleton_self _

end CostlyCalls
