import Mathlib.Data.List.Basic
import CostlyCalls.Proofs.Construction

/-!
# Selecting rules and severities

An engine runs the rules that its configuration does not allow and that its restriction names. Two
engines over the same rules that select differently agree wherever both run a rule: their findings
of it differ in the severity alone. A restriction and an allowed rule only take findings away.

The statements are proved for one rule at one node, where an engine contributes at most one finding,
and carried to visits and runs by the closed form `Engine.complete`.
-/

set_option autoImplicit false

namespace CostlyCalls

structure Registry.WellBehaved (registry : Registry) : Prop where
  reportsOwnId : ∀ rule ∈ registry.rules, rule.ReportsOwnId
  neverStops : ∀ rule ∈ registry.rules, rule.NeverStops

theorem Registry.WellBehaved.of_isStandard {registry : Registry}
    (hRules : ∀ rule ∈ registry.rules, rule.IsStandard) : registry.WellBehaved :=
  ⟨fun rule hRule => (hRules rule hRule).reportsOwnId,
    fun rule hRule => (hRules rule hRule).neverStops⟩

/-- The finding with its severity left out of account. -/
def Finding.unranked (finding : Finding) : Finding := { finding with severity := .info }

namespace Config

/-- The entry that decides about a rule: among the keys that denote the rule, its key is the
smallest. -/
structure Decides (config : Config) (id : RuleId) (key : String) (setting : Setting) : Prop where
  entry : (key, setting) ∈ config.rules
  denotes : RuleId.parse? key = some id
  smallest : ∀ other ∈ config.rules, RuleId.parse? other.1 = some id → key ≤ other.1

theorem minEntry_eq_or (a b : String × Setting) : minEntry a b = a ∨ minEntry a b = b := by
  unfold minEntry
  split
  · exact .inr rfl
  · exact .inl rfl

theorem minEntry_le_left (a b : String × Setting) : (minEntry a b).1 ≤ a.1 := by
  unfold minEntry
  split
  · next hLess => exact Std.le_of_lt hLess
  · exact Std.le_refl a.1

theorem minEntry_le_right (a b : String × Setting) : (minEntry a b).1 ≤ b.1 := by
  unfold minEntry
  split
  · exact Std.le_refl b.1
  · next hNotLess => exact Std.not_lt.1 hNotLess

theorem foldl_minEntry_mem (first : String × Setting) (rest : List (String × Setting)) :
    rest.foldl minEntry first ∈ first :: rest := by
  induction rest generalizing first with
  | nil => exact List.mem_singleton_self first
  | cons next rest ih =>
    rcases List.mem_cons.1 (ih (minEntry first next)) with hHead | hRest
    · rw [List.foldl_cons, hHead]
      rcases minEntry_eq_or first next with hEq | hEq
      · rw [hEq]
        exact List.mem_cons_self
      · rw [hEq]
        exact List.mem_cons_of_mem _ List.mem_cons_self
    · exact List.mem_cons_of_mem _ (List.mem_cons_of_mem _ hRest)

theorem foldl_minEntry_le (first : String × Setting) (rest : List (String × Setting)) :
    ∀ entry ∈ first :: rest, (rest.foldl minEntry first).1 ≤ entry.1 := by
  induction rest generalizing first with
  | nil =>
    intro entry hEntry
    rw [List.mem_singleton.1 hEntry]
    exact Std.le_refl first.1
  | cons next rest ih =>
    have hMin := ih (minEntry first next)
    have hHead := hMin _ List.mem_cons_self
    intro entry hEntry
    rw [List.mem_cons, List.mem_cons] at hEntry
    rcases hEntry with rfl | rfl | hRest
    · exact Std.le_trans hHead (minEntry_le_left _ _)
    · exact Std.le_trans hHead (minEntry_le_right _ _)
    · exact hMin entry (List.mem_cons_of_mem _ hRest)

theorem exists_decides_of_setting? {config : Config} {id : RuleId} {setting : Setting}
    (hSetting : config.setting? id = some setting) : ∃ key, config.Decides id key setting := by
  unfold setting? at hSetting
  split at hSetting
  · cases hSetting
  · next first rest hEntries =>
    rw [Option.some_inj] at hSetting
    have hMem := foldl_minEntry_mem first rest
    have hLe := foldl_minEntry_le first rest
    rw [← hEntries] at hMem hLe
    obtain ⟨hEntry, hDenotes⟩ := List.mem_filter.1 hMem
    refine ⟨(rest.foldl minEntry first).1, ?_, of_decide_eq_true hDenotes, ?_⟩
    · rw [← hSetting]
      exact hEntry
    · intro other hOther hSame
      exact hLe other (List.mem_filter.2 ⟨hOther, decide_eq_true hSame⟩)

theorem setting?_eq_none_iff {config : Config} {id : RuleId} :
    config.setting? id = none ↔ ∀ entry ∈ config.rules, RuleId.parse? entry.1 ≠ some id := by
  unfold setting?
  split
  · next hNone => simpa using hNone
  · next first rest hEntries =>
    simp only [reduceCtorEq, false_iff, not_forall]
    have hFirst : first ∈ config.rules.filter (fun r => RuleId.parse? r.1 = some id) :=
      hEntries ▸ List.mem_cons_self
    obtain ⟨hEntry, hDenotes⟩ := List.mem_filter.1 hFirst
    exact ⟨first, hEntry, fun hOther => hOther (of_decide_eq_true hDenotes)⟩

/-- The severity that a configuration gives to a rule: that of the setting which decides about it,
and its own one if no entry denotes it. -/
inductive Assigns (config : Config) (rule : Rule) : Severity → Prop
  | denied {key : String} (hEntry : config.Decides rule.id key .deny) : Assigns config rule .error
  | warned {key : String} (hEntry : config.Decides rule.id key .warn) : Assigns config rule .warning
  | unset (hNone : ∀ entry ∈ config.rules, RuleId.parse? entry.1 ≠ some rule.id) :
    Assigns config rule rule.severity

theorem assigns_of_severity? {config : Config} {rule : Rule} {severity : Severity}
    (hSeverity : config.severity? rule.id rule.severity = some severity) :
    config.Assigns rule severity := by
  unfold severity? at hSeverity
  split at hSeverity
  · next setting hSetting =>
    obtain ⟨key, hEntry⟩ := exists_decides_of_setting? hSetting
    cases setting with
    | deny =>
      cases hSeverity
      exact .denied hEntry
    | warn =>
      cases hSeverity
      exact .warned hEntry
    | allow => cases hSeverity
  · next hNone =>
    cases hSeverity
    exact .unset (setting?_eq_none_iff.1 hNone)

end Config

namespace Engine

def select (engine : Engine) (ids : List RuleId) (suppressions : List Suppression) : Engine :=
  (engine.restrictTo ids).withSuppressions suppressions

theorem lookup_filter_keys {α : Type} (keep : RuleId → Bool) (entries : List (RuleId × α))
    (id : RuleId) :
    (entries.filter fun e => keep e.1).lookup id = if keep id then entries.lookup id else none := by
  induction entries with
  | nil => simp
  | cons head rest ih =>
    obtain ⟨key, value⟩ := head
    rw [List.filter_cons, List.lookup_cons]
    by_cases hKey : id = key
    · subst hKey
      by_cases hKeep : keep id = true
      · simp [hKeep]
      · simp [hKeep, ih]
    · have hOther : (id == key) = false := by simpa using hKey
      by_cases hKeep : keep key = true
      · simp [hKeep, hOther, ih, List.lookup_cons]
      · simp [hKeep, hOther, ih]

theorem severity?_select (engine : Engine) (ids : List RuleId) (suppressions : List Suppression)
    (id : RuleId) :
    (engine.select ids suppressions).severity? id =
      if id ∈ ids then engine.severity? id else none := by
  have hLookup := lookup_filter_keys (fun key => decide (key ∈ ids)) engine.enabled id
  simp only [decide_eq_true_eq] at hLookup
  exact hLookup

theorem isEnabled_eq_true_iff {engine : Engine} {id : RuleId} :
    engine.isEnabled id = true ↔ ∃ severity, engine.severity? id = some severity :=
  Option.isSome_iff_exists

/-- What an engine finds with a rule that another engine runs too, the severity left out of
account. -/
def shared? (engine other : Engine) (ctx : Context) (node : Node) (rule : Rule) : Option Finding :=
  ((engine.finding? ctx node rule).filter fun f => other.isEnabled f.rule).map Finding.unranked

structure SameChecks (a b : Engine) : Prop where
  registry : a.registry = b.registry
  table : a.table = b.table
  facade : a.facade = b.facade
  suppressions : a.suppressions = b.suppressions

namespace SameChecks

variable {a b : Engine}

theorem symm (hSame : a.SameChecks b) : b.SameChecks a :=
  ⟨hSame.registry.symm, hSame.table.symm, hSame.facade.symm, hSame.suppressions.symm⟩

theorem context (hSame : a.SameChecks b) (arena : Arena) (model : Model) :
    a.context arena model = b.context arena model := by
  rw [Engine.context, Engine.context, hSame.table, hSame.facade]

theorem exists_finding? (hSame : a.SameChecks b) {ctx : Context} {node : Node} {rule : Rule}
    (hEnabled : b.isEnabled rule.id = true) {finding : Finding}
    (hFinding : a.finding? ctx node rule = some finding) :
    a.isEnabled rule.id = true ∧
      ∃ severity, b.finding? ctx node rule = some { finding with severity } := by
  obtain ⟨severity, reported, hSeverity, hReport, rfl, hShown⟩ := finding?_eq_some_iff.1 hFinding
  obtain ⟨other, hOther⟩ := isEnabled_eq_true_iff.1 hEnabled
  rw [hSame.suppressions] at hShown
  exact ⟨isEnabled_eq_true_iff.2 ⟨severity, hSeverity⟩, other,
    finding?_eq_some_iff.2 ⟨other, reported, hOther, hReport, rfl, hShown⟩⟩

theorem shared?_eq_some (hSame : a.SameChecks b) {ctx : Context} {node : Node} {rule : Rule}
    (hRule : rule.ReportsOwnId) {finding : Finding}
    (hShared : a.shared? b ctx node rule = some finding) :
    b.shared? a ctx node rule = some finding := by
  obtain ⟨found, hFound, rfl⟩ := Option.map_eq_some_iff.1 hShared
  obtain ⟨hFound, hEnabled⟩ := Option.filter_eq_some_iff.1 hFound
  have hId : found.rule = rule.id := rule_of_finding? hRule hFound
  obtain ⟨hBoth, severity, hOther⟩ := hSame.exists_finding? (hId ▸ hEnabled) hFound
  refine Option.map_eq_some_iff.2 ⟨{ found with severity }, ?_, rfl⟩
  exact Option.filter_eq_some_iff.2 ⟨hOther, hId ▸ hBoth⟩

theorem shared?_comm (hSame : a.SameChecks b) (ctx : Context) (node : Node) {rule : Rule}
    (hRule : rule.ReportsOwnId) : a.shared? b ctx node rule = b.shared? a ctx node rule :=
  Option.ext fun _ => ⟨hSame.shared?_eq_some hRule, hSame.symm.shared?_eq_some hRule⟩

/-- Two engines agree on the findings of the rules that both run, but for the severities. -/
theorem shared_complete (hSame : a.SameChecks b) (hRules : a.registry.WellBehaved) (arena : Arena)
    (model : Model) :
    ((a.complete arena model).filter fun f => b.isEnabled f.rule).map Finding.unranked =
      ((b.complete arena model).filter fun f => a.isEnabled f.rule).map Finding.unranked := by
  simp only [complete, List.filter_flatMap, List.map_flatMap, List.filter_filterMap,
    List.map_filterMap, hSame.context, ← hSame.registry]
  apply List.flatMap_congr
  intro node _
  apply List.filterMap_congr
  intro rule hRule
  exact hSame.shared?_comm _ node (hRules.reportsOwnId rule (Registry.mem_rulesFor_iff.1 hRule).1)

theorem finding?_eq_filter (hSame : a.SameChecks b) {keep : RuleId → Bool}
    (hSeverity : ∀ id, b.severity? id = if keep id then a.severity? id else none) (ctx : Context)
    (node : Node) {rule : Rule} (hRule : rule.ReportsOwnId) :
    b.finding? ctx node rule = (a.finding? ctx node rule).filter fun f => keep f.rule := by
  apply Option.ext
  intro finding
  rw [Option.filter_eq_some_iff, finding?_eq_some_iff, hSeverity, ← hSame.suppressions]
  constructor
  · rintro ⟨severity, reported, hBoth, hReport, rfl, hShown⟩
    obtain ⟨hKeep, hOld⟩ := Option.ite_none_right_eq_some.1 hBoth
    have hFinding := finding?_eq_some_iff.2 ⟨severity, reported, hOld, hReport, rfl, hShown⟩
    exact ⟨hFinding, (rule_of_finding? hRule hFinding) ▸ hKeep⟩
  · rintro ⟨hFinding, hKeep⟩
    rw [rule_of_finding? hRule hFinding] at hKeep
    rw [if_pos hKeep]
    exact finding?_eq_some_iff.1 hFinding

theorem complete_eq_filter (hSame : a.SameChecks b) (hRules : a.registry.WellBehaved)
    (keep : RuleId → Bool)
    (hSeverity : ∀ id, b.severity? id = if keep id then a.severity? id else none) (arena : Arena)
    (model : Model) :
    b.complete arena model = (a.complete arena model).filter fun f => keep f.rule := by
  simp only [complete, List.filter_flatMap, List.filter_filterMap, hSame.context, ← hSame.registry]
  apply List.flatMap_congr
  intro node _
  apply List.filterMap_congr
  intro rule hRule
  exact hSame.finding?_eq_filter hSeverity _ node
    (hRules.reportsOwnId rule (Registry.mem_rulesFor_iff.1 hRule).1)

end SameChecks

theorem exists_rule_of_mem_complete {engine : Engine} {arena : Arena} {model : Model}
    {finding : Finding} (hFinding : finding ∈ engine.complete arena model)
    (hRules : engine.registry.WellBehaved) :
    ∃ rule ∈ engine.registry.rules, rule.id = finding.rule ∧
      engine.severity? rule.id = some finding.severity := by
  obtain ⟨node, -, hNode⟩ := List.mem_flatMap.1 hFinding
  obtain ⟨rule, hRule, hFound⟩ := List.mem_filterMap.1 hNode
  have hMem := (Registry.mem_rulesFor_iff.1 hRule).1
  refine ⟨rule, hMem, (rule_of_finding? (hRules.reportsOwnId rule hMem) hFound).symm, ?_⟩
  obtain ⟨severity, reported, hSeverity, -, rfl, -⟩ := finding?_eq_some_iff.1 hFound
  exact hSeverity

theorem SameChecks.of_ofRegistry {first second : Config} {registry : Registry} {a b : Engine}
    (hSemantics : first.semantics = second.semantics)
    (hFirst : (ofRegistry first registry).value = .ok a)
    (hSecond : (ofRegistry second registry).value = .ok b) : a.SameChecks b := by
  have hA := Configured.of_ofRegistry hFirst
  have hB := Configured.of_ofRegistry hSecond
  refine ⟨?_, CapabilityTable.ext_names ?_, ?_, ?_⟩
  · rw [registry_of_ofRegistry hFirst, registry_of_ofRegistry hSecond]
  · rw [hA.names, hB.names, hSemantics]
  · rw [hA.facade, hB.facade, hSemantics]
  · rw [hA.suppressions, hB.suppressions]

theorem SameChecks.select {a b : Engine} (hSame : a.SameChecks b) (firstIds secondIds : List RuleId)
    (suppressions : List Suppression) :
    (a.select firstIds suppressions).SameChecks (b.select secondIds suppressions) :=
  ⟨hSame.registry, hSame.table, hSame.facade, rfl⟩

theorem complete_select {engine : Engine} (hRules : engine.registry.WellBehaved)
    (ids : List RuleId) (suppressions : List Suppression) (arena : Arena) (model : Model) :
    (engine.select ids suppressions).complete arena model =
      ((engine.withSuppressions suppressions).complete arena model).filter
        fun f => f.rule ∈ ids := by
  have hSame : (engine.withSuppressions suppressions).SameChecks (engine.select ids suppressions) :=
    ⟨rfl, rfl, rfl, rfl⟩
  apply hSame.complete_eq_filter hRules (fun id => id ∈ ids)
  intro id
  rw [severity?_select]
  simp only [decide_eq_true_eq]
  rfl

theorem assigns_of_mem_complete {config : Config} {registry : Registry} {engine : Engine}
    (hEngine : (ofRegistry config registry).value = .ok engine)
    (hRules : engine.registry.WellBehaved) {ids : List RuleId} {suppressions : List Suppression}
    {arena : Arena} {model : Model} {finding : Finding}
    (hFinding : finding ∈ (engine.select ids suppressions).complete arena model) :
    ∃ rule ∈ registry.rules, rule.id = finding.rule ∧ config.Assigns rule finding.severity := by
  obtain ⟨rule, hRule, hId, hSeverity⟩ := exists_rule_of_mem_complete hFinding hRules
  rw [severity?_select] at hSeverity
  obtain ⟨-, hSeverity⟩ := Option.ite_none_right_eq_some.1 hSeverity
  have hMem : rule ∈ registry.rules := registry_of_ofRegistry hEngine ▸ hRule
  rw [(Configured.of_ofRegistry hEngine).severity?_of_mem hMem] at hSeverity
  exact ⟨rule, hMem, hId, Config.assigns_of_severity? hSeverity⟩

theorem severity?_of_allowed {first second : Config} {rules : List Rule} {a b : Engine}
    (hFirst : a.Configured first rules) (hSecond : b.Configured second rules)
    (hRegistry : a.registry = b.registry) {id : RuleId}
    (hAllowed : second.setting? id = some .allow)
    (hOthers : ∀ other, other ≠ id → second.setting? other = first.setting? other)
    (other : RuleId) : b.severity? other = if other ≠ id then a.severity? other else none := by
  rw [hFirst.severity?, hSecond.severity?, ← hRegistry]
  cases hGet : a.registry.get? other with
  | none => simp
  | some rule =>
    obtain ⟨-, rfl⟩ := Registry.get?_eq_some_iff.1 hGet
    by_cases hId : rule.id = id
    · simp [Config.severity?, hId, hAllowed, Setting.severity?]
    · simp [Config.severity?, hId, hOthers rule.id hId]

theorem complete_allowed {first second : Config} {registry : Registry} {a b : Engine}
    (hRules : a.registry.WellBehaved) (hSemantics : first.semantics = second.semantics)
    (hFirst : (ofRegistry first registry).value = .ok a)
    (hSecond : (ofRegistry second registry).value = .ok b) {id : RuleId}
    (hAllowed : second.setting? id = some .allow)
    (hOthers : ∀ other, other ≠ id → second.setting? other = first.setting? other)
    (ids : List RuleId) (suppressions : List Suppression) (arena : Arena) (model : Model) :
    (b.select ids suppressions).complete arena model =
      ((a.select ids suppressions).complete arena model).filter fun f => f.rule ≠ id := by
  have hSame := SameChecks.of_ofRegistry hSemantics hFirst hSecond
  apply (hSame.select ids ids suppressions).complete_eq_filter hRules (fun other => other ≠ id)
  intro other
  rw [severity?_select, severity?_select,
    severity?_of_allowed (.of_ofRegistry hFirst) (.of_ofRegistry hSecond) hSame.registry hAllowed
      hOthers]
  by_cases hId : other = id
  · simp [hId]
  · simp [hId]

end Engine

/-- What a rule finds depends neither on the selection nor on the severities of the other rules. -/
theorem analyze_selection_noninterference {registry : Registry} (hRules : registry.WellBehaved)
    {first second : Config} (hSemantics : first.semantics = second.semantics) {a b : Engine}
    (hFirst : (Engine.ofRegistry first registry).value = .ok a)
    (hSecond : (Engine.ofRegistry second registry).value = .ok b)
    (firstIds secondIds : List RuleId) (suppressions : List Suppression) (arena : Arena)
    (model : Model) :
    ∃ found other unrestricted,
      ((a.select firstIds suppressions).analyze arena model fun _ => false).findings =
        some found ∧
      ((b.select secondIds suppressions).analyze arena model fun _ => false).findings =
        some other ∧
      ((a.withSuppressions suppressions).analyze arena model fun _ => false).findings =
        some unrestricted ∧
      (found.filter fun f => (b.select secondIds suppressions).isEnabled f.rule).map
          Finding.unranked =
        (other.filter fun f => (a.select firstIds suppressions).isEnabled f.rule).map
          Finding.unranked ∧
      (∀ f ∈ found, ∃ rule ∈ registry.rules, rule.id = f.rule ∧ first.Assigns rule f.severity) ∧
      (∀ f ∈ other, ∃ rule ∈ registry.rules, rule.id = f.rule ∧ second.Assigns rule f.severity) ∧
      found = unrestricted.filter (fun f => f.rule ∈ firstIds) ∧
      ∀ id, second.setting? id = some .allow →
        (∀ another, another ≠ id → second.setting? another = first.setting? another) →
        firstIds = secondIds → other = found.filter fun f => f.rule ≠ id := by
  have hSame := (Engine.SameChecks.of_ofRegistry hSemantics hFirst hSecond).select
    firstIds secondIds suppressions
  have hBehaved : a.registry.WellBehaved := Engine.registry_of_ofRegistry hFirst ▸ hRules
  have hOther : b.registry.WellBehaved := Engine.registry_of_ofRegistry hSecond ▸ hRules
  refine ⟨_, _, _, Engine.NeverStops.findings_analyze_complete ?_ arena model,
    Engine.NeverStops.findings_analyze_complete ?_ arena model,
    Engine.NeverStops.findings_analyze_complete ?_ arena model,
    hSame.shared_complete ?_ arena model, ?_, ?_, ?_, ?_⟩
  · exact hBehaved.neverStops
  · exact hOther.neverStops
  · exact hBehaved.neverStops
  · exact hBehaved
  · exact fun f hf => Engine.assigns_of_mem_complete hFirst hBehaved hf
  · exact fun f hf => Engine.assigns_of_mem_complete hSecond hOther hf
  · exact Engine.complete_select hBehaved firstIds suppressions arena model
  · rintro id hAllowed hOthers rfl
    exact Engine.complete_allowed hBehaved hSemantics hFirst hSecond hAllowed hOthers firstIds
      suppressions arena model

def cartArena : Arena where
  file := ⟨"src/Cart.cs"⟩
  nodes := [{ id := ⟨1⟩, shape := .fieldDeclaration "items" },
    { id := ⟨2⟩, shape := .propertyDeclaration "Prices" }]
  index := _
  built := rfl
  resolved := rfl

def cartModel : Model where
  symbol? id :=
    if id = ⟨1⟩ then some (.typed .field "items" (.array (.named "Shop.Item")))
    else some (.typed .property "Prices" (.array (.named "System.Decimal")))
  type? _ := none
  interfaces _ := []

def cartConfig : Config := { rules := [("col0002", .deny), ("COL0001", .allow)] }

theorem analyze_selection_noninterference_cart :
    ∃ a b found other, (Engine.ofRegistry {} Registry.builtin).value = .ok a ∧
      (Engine.ofRegistry cartConfig Registry.builtin).value = .ok b ∧
      ((a.select [⟨1⟩, ⟨2⟩] []).analyze cartArena cartModel fun _ => false).findings =
        some found ∧
      ((b.select [⟨2⟩, ⟨10⟩] []).analyze cartArena cartModel fun _ => false).findings =
        some other ∧
      found.map (fun f => (f.rule, f.severity)) = [(⟨2⟩, .warning), (⟨1⟩, .warning)] ∧
      other.map (fun f => (f.rule, f.severity)) = [(⟨2⟩, .error)] ∧
      (found.filter fun f => (b.select [⟨2⟩, ⟨10⟩] []).isEnabled f.rule).map Finding.unranked =
        (other.filter fun f => (a.select [⟨1⟩, ⟨2⟩] []).isEnabled f.rule).map Finding.unranked := by
  have hRules : Registry.builtin.WellBehaved :=
    .of_isStandard fun _ hRule => Catalogue.isStandard hRule
  have hSemantics : ({} : Config).semantics = cartConfig.semantics := rfl
  obtain ⟨a, hFirst, hWarned⟩ : ∃ a, (Engine.ofRegistry {} Registry.builtin).value = .ok a ∧
      ((a.select [⟨1⟩, ⟨2⟩] []).analyze cartArena cartModel fun _ => false).findings.map
        (List.map fun f => (f.rule, f.severity)) = some [(⟨2⟩, .warning), (⟨1⟩, .warning)] :=
    ⟨_, rfl, by decide +kernel⟩
  obtain ⟨b, hSecond, hDenied⟩ :
      ∃ b, (Engine.ofRegistry cartConfig Registry.builtin).value = .ok b ∧
      ((b.select [⟨2⟩, ⟨10⟩] []).analyze cartArena cartModel fun _ => false).findings.map
        (List.map fun f => (f.rule, f.severity)) = some [(⟨2⟩, .error)] :=
    ⟨_, rfl, by decide +kernel⟩
  obtain ⟨found, other, -, hFound, hOther, -, hShared, -⟩ :=
    analyze_selection_noninterference hRules hSemantics hFirst hSecond [⟨1⟩, ⟨2⟩] [⟨2⟩, ⟨10⟩] []
      cartArena cartModel
  rw [hFound, Option.map_some, Option.some_inj] at hWarned
  rw [hOther, Option.map_some, Option.some_inj] at hDenied
  exact ⟨a, b, found, other, hFirst, hSecond, hFound, hOther, hWarned, hDenied, hShared⟩

end CostlyCalls
