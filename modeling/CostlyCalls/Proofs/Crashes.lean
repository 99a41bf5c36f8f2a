import Mathlib.Data.List.Basic
import CostlyCalls.Proofs.Construction

/-!
# Crashes stay where they happen

A check that breaks down costs its own finding and nothing else. The run with crashes is compared
with the run of the same rules in which every crash is replaced by silence: they find the same, and
the first one has a warning for each crash besides. Rules that are not enabled are not run at all,
so it does not matter what their checks would do.

Both comparisons are between an engine and the same engine with other checks (`Engine.withChecks`).
What a visit depends on is said for one rule; visits and runs follow.
-/

set_option autoImplicit false

namespace CostlyCalls

namespace Rule

def withCheck (rule : Rule) (check : Context → Node → Check) : Rule := { rule with check }

def calmCheck (rule : Rule) (ctx : Context) (node : Node) : Check :=
  match (rule.check ctx node).verdict with
  | .crash _ => { rule.check ctx node with verdict := .clear }
  | .clear | .report _ => rule.check ctx node

theorem report?_calmCheck (rule : Rule) (ctx : Context) (node : Node) :
    (rule.withCheck rule.calmCheck).report? ctx node = rule.report? ctx node := by
  simp only [report?, withCheck, calmCheck]
  cases hVerdict : (rule.check ctx node).verdict with
  | clear => simp only [hVerdict]
  | report finding => simp only [hVerdict]
  | crash payload => rfl

theorem stops_calmCheck (rule : Rule) (ctx : Context) (node : Node) :
    (rule.calmCheck ctx node).stops = (rule.check ctx node).stops := by
  unfold calmCheck
  split <;> rfl

end Rule

structure Crash where
  rule : RuleId
  node : NodeId
  payload : Option String
  deriving DecidableEq, Repr

def Crash.notice (file : Path) (crash : Crash) : String :=
  "Rule '" ++ crash.rule.toText ++ "' panicked on node " ++ crash.node.display ++ " in "
    ++ file.text ++ ": " ++ crash.payload.getD "(unknown panic payload)"

def Rule.crash? (rule : Rule) (ctx : Context) (node : Node) : Option Crash :=
  match (rule.check ctx node).verdict with
  | .crash payload => some ⟨rule.id, node.id, payload⟩
  | .clear | .report _ => none

namespace Event

def warnings (log : List Event) : List String :=
  (log.filter fun event => event.level = .warn).map text

theorem warnings_append (a b : List Event) : warnings (a ++ b) = warnings a ++ warnings b := by
  simp only [warnings, List.filter_append, List.map_append]

theorem warnings_flatMap {α : Type} (xs : List α) (log : α → List Event) :
    warnings (xs.flatMap log) = xs.flatMap fun x => warnings (log x) := by
  simp only [warnings, List.filter_flatMap, List.map_flatMap]

end Event

namespace Registry

def withChecks (registry : Registry) (checks : Rule → Context → Node → Check) : Registry :=
  ofDistinct (registry.rules.map fun rule => rule.withCheck (checks rule))
    (by
      intro other hOther
      obtain ⟨rule, hRule, rfl⟩ := List.mem_map.1 hOther
      exact registry.bounded rule hRule)
    (by
      rw [List.map_map]
      exact registry.distinct)

def calmed (registry : Registry) : Registry := registry.withChecks Rule.calmCheck

theorem rules_withChecks (registry : Registry) (checks : Rule → Context → Node → Check) :
    (registry.withChecks checks).rules =
      registry.rules.map fun rule => rule.withCheck (checks rule) :=
  rules_ofDistinct _ _

theorem rulesFor_withChecks (registry : Registry) (checks : Rule → Context → Node → Check)
    (kind : Kind) :
    (registry.withChecks checks).rulesFor kind =
      (registry.rulesFor kind).map fun rule => rule.withCheck (checks rule) := by
  simp only [rulesFor_eq, rules_withChecks, List.flatMap_map, List.map_flatMap, List.map_replicate]
  rfl

end Registry

namespace Engine

def withChecks (engine : Engine) (checks : Rule → Context → Node → Check) : Engine :=
  { engine with registry := engine.registry.withChecks checks }

theorem registry_withChecks (engine : Engine) (checks : Rule → Context → Node → Check) :
    (engine.withChecks checks).registry = engine.registry.withChecks checks := rfl

theorem ofRegistry_withChecks {config : Config} {registry : Registry} {engine : Engine}
    (hEngine : (ofRegistry config registry).value = .ok engine)
    (checks : Rule → Context → Node → Check) :
    (ofRegistry config (registry.withChecks checks)).value = .ok (engine.withChecks checks) := by
  have hEnabled : enabledRules config (registry.withChecks checks) = engine.enabled := by
    rw [(Configured.of_ofRegistry hEngine).enabled, registry_of_ofRegistry hEngine]
    simp only [enabledRules, Registry.rules_withChecks, List.filterMap_map]
    rfl
  rw [ofRegistry_of_semantics rfl hEngine, hEnabled, withChecks, registry_of_ofRegistry hEngine]

theorem under_withChecks (engine : Engine) (checks : Rule → Context → Node → Check)
    (restriction : Option (List RuleId)) (suppressions : List Suppression) :
    (engine.withChecks checks).under restriction suppressions =
      (engine.under restriction suppressions).withChecks checks := by
  cases restriction <;> rfl

theorem runRules_withChecks (engine : Engine) (checks : Rule → Context → Node → Check)
    (ctx : Context) (node : Node) (rules : List Rule) :
    (engine.withChecks checks).runRules ctx node rules = engine.runRules ctx node rules := by
  induction rules with
  | nil => rfl
  | cons rule rest ih =>
    rw [runRules, runRules, ih]
    rfl

theorem visit_withChecks (engine : Engine) (checks : Rule → Context → Node → Check)
    (ctx : Context) (node : Node) :
    (engine.withChecks checks).visit ctx node =
      engine.runRules ctx node ((engine.registry.rulesFor node.kind).map
        fun rule => rule.withCheck (checks rule)) := by
  rw [visit, runRules_withChecks, withChecks, Registry.rulesFor_withChecks]

theorem runRules_map_withCheck {engine : Engine} {checks : Rule → Context → Node → Check}
    {rules : List Rule}
    (hChecks : ∀ rule ∈ rules, engine.isEnabled rule.id = true → checks rule = rule.check)
    (ctx : Context) (node : Node) :
    engine.runRules ctx node (rules.map fun rule => rule.withCheck (checks rule)) =
      engine.runRules ctx node rules := by
  induction rules with
  | nil => rfl
  | cons rule rest ih =>
    have hRest := ih fun other hOther => hChecks other (List.mem_cons_of_mem _ hOther)
    have hId : (rule.withCheck (checks rule)).id = rule.id := rfl
    rw [List.map_cons, runRules, runRules, hRest, hId]
    cases hSeverity : engine.severity? rule.id with
    | none =>
      rfl
    | some severity =>
      have hEnabled : engine.isEnabled rule.id = true := by simp [isEnabled, hSeverity]
      rw [hChecks rule List.mem_cons_self hEnabled]
      rfl

theorem walk_congr {a b : Engine} {ctx : Context} {nodes : List Node}
    (hVisits : ∀ node ∈ nodes, a.visit ctx node = b.visit ctx node) (halt : Nat → Bool) (i : Nat)
    (stopped : Bool) : a.walk ctx halt i stopped nodes = b.walk ctx halt i stopped nodes := by
  induction nodes generalizing i stopped with
  | nil => rfl
  | cons node rest ih =>
    have hRest := ih fun other hOther => hVisits other (List.mem_cons_of_mem _ hOther)
    simp only [walk, hVisits node List.mem_cons_self, hRest]

theorem analyze_withChecks {engine : Engine} {checks : Rule → Context → Node → Check}
    (hChecks : ∀ rule ∈ engine.registry.rules, engine.isEnabled rule.id = true →
      checks rule = rule.check) (arena : Arena) (model : Model) (halt : Nat → Bool) :
    (engine.withChecks checks).analyze arena model halt = engine.analyze arena model halt := by
  apply walk_congr
  intro node _
  rw [visit_withChecks]
  apply runRules_map_withCheck
  intro rule hRule
  exact hChecks rule (Registry.mem_rulesFor_iff.1 hRule).1

theorem findings_visit_calmed (engine : Engine) (ctx : Context) (node : Node) :
    ((engine.withChecks Rule.calmCheck).visit ctx node).findings =
      (engine.visit ctx node).findings := by
  rw [visit_withChecks, findings_runRules, findings_visit, List.filterMap_map]
  apply List.filterMap_congr
  intro rule _
  rw [Function.comp_apply, finding?, Rule.report?_calmCheck]
  rfl

theorem stops_visit_calmed (engine : Engine) (ctx : Context) (node : Node) :
    ((engine.withChecks Rule.calmCheck).visit ctx node).stops = (engine.visit ctx node).stops := by
  rw [visit_withChecks, stops_runRules, stops_visit, List.any_map]
  congr
  funext rule
  rw [Function.comp_apply, Rule.withCheck, Rule.stops_calmCheck]

theorem findings_analyze_calmed {engine : Engine} {arena : Arena} {model : Model}
    (hRun : (engine.analyze arena model fun _ => false).stopped = false) :
    ((engine.withChecks Rule.calmCheck).analyze arena model fun _ => false).findings =
      (engine.analyze arena model fun _ => false).findings := by
  have hVisits := stopped_analyze_eq_false_iff.1 hRun
  -- A silenced check still asks for a stop where the crashing one did, so neither run is stopped.
  have hCalm : ((engine.withChecks Rule.calmCheck).analyze arena model fun _ => false).stopped =
      false := by
    rw [stopped_analyze_eq_false_iff]
    intro node hNode
    rw [stops_visit_calmed]
    exact hVisits node hNode
  rw [analyze_of_unstopped hRun, analyze_of_unstopped hCalm]
  simp only [findings_visit_calmed]
  rfl

def crash? (engine : Engine) (ctx : Context) (node : Node) (rule : Rule) : Option Crash :=
  if engine.isEnabled rule.id then rule.crash? ctx node else none

/-- The crashes of a run in the order of the visits: node by node, and on a node in the order of
registration, a rule as often as it names the kind of the node. -/
def crashes (engine : Engine) (arena : Arena) (model : Model) : List Crash :=
  arena.nodes.flatMap fun node =>
    (engine.registry.rulesFor node.kind).filterMap
      (engine.crash? (engine.context arena model) node)

theorem warnings_settle (engine : Engine) (severity : Severity) (finding : Finding) :
    Event.warnings (engine.settle severity finding).log = [] := by
  simp only [settle]
  split <;> rfl

theorem warnings_runRule (engine : Engine) (ctx : Context) (node : Node) (rule : Rule)
    (severity : Severity) :
    Event.warnings (engine.runRule ctx node rule severity).log =
      (rule.crash? ctx node).toList.map (Crash.notice ctx.file) := by
  simp only [runRule, Rule.crash?]
  cases hVerdict : (rule.check ctx node).verdict with
  | clear => rfl
  | report finding => exact engine.warnings_settle severity finding
  | crash payload => rfl

theorem warnings_runRules (engine : Engine) (ctx : Context) (node : Node) (rules : List Rule) :
    Event.warnings (engine.runRules ctx node rules).log =
      (rules.filterMap (engine.crash? ctx node)).map (Crash.notice ctx.file) := by
  induction rules with
  | nil => rfl
  | cons rule rest ih =>
    rw [runRules, List.filterMap_cons, crash?, isEnabled]
    cases engine.severity? rule.id with
    | none => exact ih
    | some severity =>
      simp only [Visit.append, Event.warnings_append, warnings_runRule, ih]
      cases rule.crash? ctx node <;> rfl

theorem warnings_analyze {engine : Engine} {arena : Arena} {model : Model}
    (hRun : (engine.analyze arena model fun _ => false).stopped = false) :
    Event.warnings (engine.analyze arena model fun _ => false).log =
      (engine.crashes arena model).map (Crash.notice arena.file) := by
  rw [analyze_of_unstopped hRun, Event.warnings_flatMap, crashes, List.map_flatMap]
  apply List.flatMap_congr
  intro node _
  exact engine.warnings_runRules _ node _

end Engine

/-- Every crash of a rule that is run is reported, and otherwise counts as silence. -/
theorem analyze_isolates_crashes {config : Config} {registry : Registry} {engine : Engine}
    (hEngine : (Engine.ofRegistry config registry).value = .ok engine)
    (restriction : Option (List RuleId)) (suppressions : List Suppression) (arena : Arena)
    (model : Model)
    (hRun : (engine.runUnder restriction suppressions arena model).stopped = false) :
    ∃ calm findings,
      (Engine.ofRegistry config registry.calmed).value = .ok calm ∧
      (engine.runUnder restriction suppressions arena model).findings = some findings ∧
      (calm.runUnder restriction suppressions arena model).findings = some findings ∧
      Event.warnings (engine.runUnder restriction suppressions arena model).log =
        ((engine.under restriction suppressions).crashes arena model).map
          (Crash.notice arena.file) ∧
      ∀ checks : Rule → Context → Node → Check,
        (∀ rule ∈ registry.rules, (engine.under restriction suppressions).isEnabled rule.id = true →
          checks rule = rule.check) →
        ∃ other, (Engine.ofRegistry config (registry.withChecks checks)).value = .ok other ∧
          other.runUnder restriction suppressions arena model =
            engine.runUnder restriction suppressions arena model := by
  have hRules : (engine.under restriction suppressions).registry = registry := by
    rw [← Engine.registry_of_ofRegistry hEngine]
    cases restriction <;> rfl
  refine ⟨_, _, Engine.ofRegistry_withChecks hEngine Rule.calmCheck,
    congrArg Engine.Run.findings (Engine.analyze_of_unstopped hRun), ?_,
    Engine.warnings_analyze hRun, ?_⟩
  · rw [Engine.runUnder, Engine.under_withChecks, Engine.findings_analyze_calmed hRun,
      Engine.analyze_of_unstopped hRun]
  · intro checks hChecks
    refine ⟨_, Engine.ofRegistry_withChecks hEngine checks, ?_⟩
    rw [Engine.runUnder, Engine.under_withChecks]
    exact Engine.analyze_withChecks (hRules ▸ hChecks) arena model _

def brittleRule : Rule where
  id := ⟨9001⟩
  name := "brittle"
  kinds := [.literal, .literal]
  check ctx node :=
    if node.id = ⟨1⟩ then ⟨.crash (some "boom"), false⟩
    else ⟨.report (.atNode ⟨9001⟩ .warning none ctx node "literal"), false⟩

def muteRule : Rule where
  id := ⟨9002⟩
  name := "mute"
  kinds := [.literal]
  check ctx node :=
    if node.id = ⟨2⟩ then ⟨.crash none, false⟩
    else ⟨.report (.atNode ⟨9002⟩ .warning none ctx node "literal"), false⟩

def retiredRule : Rule where
  id := ⟨9003⟩
  name := "retired"
  kinds := [.literal]
  check _ _ := ⟨.crash (some "gone"), true⟩

def oddRegistry : Registry :=
  .ofDistinct [brittleRule, muteRule, retiredRule] (by decide) (by decide)

def oddArena : Arena where
  file := ⟨"src/Odd.cs"⟩
  nodes := [{ id := ⟨1⟩, shape := .literal }, { id := ⟨2⟩, shape := .literal }]
  index := _
  built := rfl
  resolved := rfl

def oddModel : Model := ⟨fun _ => none, fun _ => none, fun _ => []⟩

theorem analyze_isolates_crashes_odd :
    ∃ engine calm findings,
      (Engine.ofRegistry { rules := [("COL9003", .allow)] } oddRegistry).value = .ok engine ∧
      (Engine.ofRegistry { rules := [("COL9003", .allow)] } oddRegistry.calmed).value =
        .ok calm ∧
      (engine.runUnder none [] oddArena oddModel).findings = some findings ∧
      (calm.runUnder none [] oddArena oddModel).findings = some findings ∧
      findings.map Finding.rule = [⟨9002⟩, ⟨9001⟩, ⟨9001⟩] ∧
      Event.warnings (engine.runUnder none [] oddArena oddModel).log =
        ["Rule 'COL9001' panicked on node #1 in src/Odd.cs: boom",
          "Rule 'COL9001' panicked on node #1 in src/Odd.cs: boom",
          "Rule 'COL9002' panicked on node #2 in src/Odd.cs: (unknown panic payload)"] := by
  obtain ⟨engine, hEngine, hRun, hFound, hCrashes⟩ : ∃ engine,
      (Engine.ofRegistry { rules := [("COL9003", .allow)] } oddRegistry).value = .ok engine ∧
      (engine.runUnder none [] oddArena oddModel).stopped = false ∧
      (engine.runUnder none [] oddArena oddModel).findings.map (List.map Finding.rule) =
        some [⟨9002⟩, ⟨9001⟩, ⟨9001⟩] ∧
      (engine.under none []).crashes oddArena oddModel =
        [⟨⟨9001⟩, ⟨1⟩, some "boom"⟩, ⟨⟨9001⟩, ⟨1⟩, some "boom"⟩, ⟨⟨9002⟩, ⟨2⟩, none⟩] :=
    ⟨_, rfl, by decide +kernel, by decide +kernel, by decide +kernel⟩
  obtain ⟨calm, findings, hCalm, hFindings, hSame, hWarnings, -⟩ :=
    analyze_isolates_crashes hEngine none [] oddArena oddModel hRun
  rw [hFindings, Option.map_some, Option.some_inj] at hFound
  rw [hCrashes] at hWarnings
  exact ⟨engine, calm, findings, hEngine, hCalm, hFindings, hSame, hFound,
    hWarnings.trans (by decide +kernel)⟩

end CostlyCalls
