import CostlyCalls.Engine

/-!
# Visits and runs

The findings of an engine in closed form. A rule contributes at most one finding to the visit of a
node; a visit collects the contributions of the rules registered for the kind of the node; and a run
that nobody stops collects the visits in the order of the arena.
-/

set_option autoImplicit false

namespace CostlyCalls

namespace Rule

def report? (rule : Rule) (ctx : Context) (node : Node) : Option Finding :=
  match (rule.check ctx node).verdict with
  | .report finding => some finding
  | .clear | .crash _ => none

def NeverStops (rule : Rule) : Prop := ∀ ctx node, (rule.check ctx node).stops = false

def ReportsOwnId (rule : Rule) : Prop :=
  ∀ ctx node finding, rule.report? ctx node = some finding → finding.rule = rule.id

end Rule

@[simp] theorem CallRule.report?_toRule (rule : CallRule) (ctx : Context) (node : Node) :
    rule.toRule.report? ctx node = rule.finding? ctx node := by
  unfold Rule.report? CallRule.toRule
  cases h : rule.finding? ctx node <;> simp [h]

@[simp] theorem DeclarationRule.report?_toRule (rule : DeclarationRule) (ctx : Context)
    (node : Node) : rule.toRule.report? ctx node = rule.finding? ctx node := by
  unfold Rule.report? DeclarationRule.toRule
  cases h : rule.finding? ctx node <;> simp [h]

theorem CallRule.neverStops_toRule (rule : CallRule) : rule.toRule.NeverStops := by
  intro ctx node
  unfold CallRule.toRule
  cases h : rule.finding? ctx node <;> simp [h]

theorem DeclarationRule.neverStops_toRule (rule : DeclarationRule) : rule.toRule.NeverStops := by
  intro ctx node
  unfold DeclarationRule.toRule
  cases h : rule.finding? ctx node <;> simp [h]

/-- The rule is a call rule or a declaration rule, built in or not. -/
inductive Rule.IsStandard : Rule → Prop
  | call (rule : CallRule) : IsStandard rule.toRule
  | declaration (rule : DeclarationRule) : IsStandard rule.toRule

theorem Rule.IsStandard.neverStops {rule : Rule} (hRule : rule.IsStandard) : rule.NeverStops := by
  cases hRule with
  | call rule => exact rule.neverStops_toRule
  | declaration rule => exact rule.neverStops_toRule

theorem Rule.IsStandard.reportsOwnId {rule : Rule} (hRule : rule.IsStandard) :
    rule.ReportsOwnId := by
  intro ctx node finding hReport
  cases hRule with
  | call rule =>
    rw [CallRule.report?_toRule, CallRule.finding?, Option.map_eq_some_iff] at hReport
    obtain ⟨site, -, rfl⟩ := hReport
    rfl
  | declaration rule =>
    rw [DeclarationRule.report?_toRule, DeclarationRule.finding?, Option.map_eq_some_iff] at hReport
    obtain ⟨symbol, -, rfl⟩ := hReport
    rfl

theorem Catalogue.isStandard {rule : Rule} (hRule : rule ∈ Catalogue.rules) : rule.IsStandard := by
  rcases List.mem_append.1 hRule with hRule | hRule
  · obtain ⟨declaration, -, rfl⟩ := List.mem_map.1 hRule
    exact .declaration declaration
  · obtain ⟨call, -, rfl⟩ := List.mem_map.1 hRule
    exact .call call

theorem Catalogue.neverStops {rule : Rule} (hRule : rule ∈ Catalogue.rules) : rule.NeverStops :=
  (Catalogue.isStandard hRule).neverStops

theorem Registry.mem_rulesFor_iff {registry : Registry} {kind : Kind} {rule : Rule} :
    rule ∈ registry.rulesFor kind ↔ rule ∈ registry.rules ∧ kind ∈ rule.kinds := by
  simp only [rulesFor_eq, List.mem_flatMap, List.mem_replicate, ne_eq, List.count_eq_zero,
    Classical.not_not]
  constructor
  · rintro ⟨other, hOther, hKind, rfl⟩
    exact ⟨hOther, hKind⟩
  · rintro ⟨hRule, hKind⟩
    exact ⟨rule, hRule, hKind, rfl⟩

theorem Registry.rulesFor_eq_filter {registry : Registry} (kind : Kind)
    (hOnce : ∀ rule ∈ registry.rules, rule.kinds.Nodup) :
    registry.rulesFor kind = registry.rules.filter (fun rule => kind ∈ rule.kinds) := by
  rw [rulesFor_eq]
  generalize registry.rules = rules at hOnce ⊢
  induction rules with
  | nil => rfl
  | cons rule rest ih =>
    have hRest := ih fun other hOther => hOnce other (List.mem_cons_of_mem _ hOther)
    rw [List.flatMap_cons, hRest, (hOnce rule List.mem_cons_self).count, List.filter_cons]
    by_cases hKind : kind ∈ rule.kinds
    · simp [hKind]
    · simp [hKind]

namespace Engine

def NeverStops (engine : Engine) : Prop := ∀ rule ∈ engine.registry.rules, rule.NeverStops

/-- What a rule contributes to the visit of a node: its finding with the configured severity, unless
the rule is disabled or the finding suppressed. -/
def finding? (engine : Engine) (ctx : Context) (node : Node) (rule : Rule) : Option Finding := do
  let severity ← engine.severity? rule.id
  let finding ← rule.report? ctx node
  if Suppression.hides engine.suppressions { finding with severity } then none
  else some { finding with severity }

theorem finding?_eq_some_iff {engine : Engine} {ctx : Context} {node : Node} {rule : Rule}
    {finding : Finding} :
    engine.finding? ctx node rule = some finding ↔
      ∃ severity reported, engine.severity? rule.id = some severity ∧
        rule.report? ctx node = some reported ∧ finding = { reported with severity } ∧
        Suppression.hides engine.suppressions finding = false := by
  simp only [finding?, Option.bind_eq_bind, Option.bind_eq_some_iff, Option.ite_none_left_eq_some,
    Bool.not_eq_true, Option.some_inj]
  constructor
  · rintro ⟨severity, hSeverity, reported, hReport, hShown, rfl⟩
    exact ⟨severity, reported, hSeverity, hReport, rfl, hShown⟩
  · rintro ⟨severity, reported, hSeverity, hReport, rfl, hShown⟩
    exact ⟨severity, hSeverity, reported, hReport, hShown, rfl⟩

theorem rule_of_finding? {engine : Engine} {ctx : Context} {node : Node} {rule : Rule}
    {finding : Finding} (hRule : rule.ReportsOwnId)
    (hFinding : engine.finding? ctx node rule = some finding) : finding.rule = rule.id := by
  obtain ⟨severity, reported, -, hReport, rfl, -⟩ := finding?_eq_some_iff.1 hFinding
  exact hRule ctx node reported hReport

theorem findings_runRule {engine : Engine} {ctx : Context} {node : Node} {rule : Rule}
    {severity : Severity} (hSeverity : engine.severity? rule.id = some severity) :
    (engine.runRule ctx node rule severity).findings = (engine.finding? ctx node rule).toList := by
  simp only [runRule, finding?, Rule.report?, hSeverity, settle]
  cases hVerdict : (rule.check ctx node).verdict with
  | clear => rfl
  | report finding =>
    simp only [Option.bind_eq_bind, Option.bind_some]
    split <;> rfl
  | crash payload => rfl

theorem findings_runRules (engine : Engine) (ctx : Context) (node : Node) (rules : List Rule) :
    (engine.runRules ctx node rules).findings = rules.filterMap (engine.finding? ctx node) := by
  induction rules with
  | nil => rfl
  | cons rule rest ih =>
    rw [runRules, List.filterMap_cons]
    cases hSeverity : engine.severity? rule.id with
    | none =>
      have hNone : engine.finding? ctx node rule = none := by simp [finding?, hSeverity]
      rw [hNone]
      exact ih
    | some severity =>
      simp only [Visit.append, findings_runRule hSeverity, ih]
      cases engine.finding? ctx node rule <;> rfl

theorem findings_visit (engine : Engine) (ctx : Context) (node : Node) :
    (engine.visit ctx node).findings =
      (engine.registry.rulesFor node.kind).filterMap (engine.finding? ctx node) :=
  engine.findings_runRules ctx node _

theorem stops_runRules (engine : Engine) (ctx : Context) (node : Node) (rules : List Rule) :
    (engine.runRules ctx node rules).stops =
      rules.any fun rule => engine.isEnabled rule.id && (rule.check ctx node).stops := by
  induction rules with
  | nil => rfl
  | cons rule rest ih =>
    rw [runRules, List.any_cons, isEnabled]
    cases engine.severity? rule.id with
    | none => simpa using ih
    | some severity => simp [Visit.append, runRule, ih]

theorem stops_visit (engine : Engine) (ctx : Context) (node : Node) :
    (engine.visit ctx node).stops =
      (engine.registry.rulesFor node.kind).any
        fun rule => engine.isEnabled rule.id && (rule.check ctx node).stops :=
  engine.stops_runRules ctx node _

theorem NeverStops.visit {engine : Engine} (hEngine : engine.NeverStops) (ctx : Context)
    (node : Node) : (engine.visit ctx node).stops = false := by
  rw [stops_visit, List.any_eq_false]
  intro rule hRule
  simp [hEngine rule (Registry.mem_rulesFor_iff.1 hRule).1 ctx node]

/-- A run over nodes is stopped by the first question to the host that is answered with yes; without
such an answer it collects the visits. -/
theorem NeverStops.findings_walk {engine : Engine} (hEngine : engine.NeverStops) (ctx : Context)
    (halt : Nat → Bool) (i : Nat) (nodes : List Node) :
    (engine.walk ctx halt i false nodes).findings =
      if (List.range' i nodes.length).any halt then none
      else some (nodes.flatMap fun node => (engine.visit ctx node).findings) := by
  induction nodes generalizing i with
  | nil => rfl
  | cons node rest ih =>
    rw [walk, List.length_cons, List.range'_succ, List.any_cons, Bool.false_or]
    by_cases hHalt : halt i = true
    · simp [hHalt]
    · rw [if_neg hHalt, Bool.eq_false_iff.2 hHalt, Bool.false_or]
      simp only [Run.after, hEngine.visit ctx node, ih, List.flatMap_cons]
      split <;> rfl

theorem NeverStops.findings_analyze {engine : Engine} (hEngine : engine.NeverStops) (arena : Arena)
    (model : Model) (halt : Nat → Bool) :
    (engine.analyze arena model halt).findings =
      if (List.range arena.nodes.length).any halt then none
      else some (arena.nodes.flatMap fun node =>
        (engine.visit (engine.context arena model) node).findings) := by
  rw [analyze, hEngine.findings_walk, List.range_eq_range']

theorem NeverStops.findings_analyze_never {engine : Engine} (hEngine : engine.NeverStops)
    (arena : Arena) (model : Model) :
    (engine.analyze arena model fun _ => false).findings =
      some (arena.nodes.flatMap fun node =>
        (engine.visit (engine.context arena model) node).findings) := by
  simp [hEngine.findings_analyze]

theorem stopped_walk (engine : Engine) (ctx : Context) (i : Nat) (stopped : Bool)
    (nodes : List Node) :
    (engine.walk ctx (fun _ => false) i stopped nodes).stopped =
      (stopped || nodes.any fun node => (engine.visit ctx node).stops) := by
  induction nodes generalizing i stopped with
  | nil => simp [walk]
  | cons node rest ih =>
    cases stopped with
    | true => simp [walk]
    | false => simp [walk, Run.after, ih]

theorem walk_of_unstopped {engine : Engine} {ctx : Context} {nodes : List Node}
    (hNodes : ∀ node ∈ nodes, (engine.visit ctx node).stops = false) (i : Nat) :
    engine.walk ctx (fun _ => false) i false nodes =
      ⟨some (nodes.flatMap fun node => (engine.visit ctx node).findings),
        nodes.flatMap fun node => (engine.visit ctx node).log, false⟩ := by
  induction nodes generalizing i with
  | nil => rfl
  | cons node rest ih =>
    have hRest := ih (fun other hOther => hNodes other (List.mem_cons_of_mem _ hOther)) (i + 1)
    simp [walk, Run.after, hNodes node List.mem_cons_self, hRest]

theorem stopped_analyze_eq_false_iff {engine : Engine} {arena : Arena} {model : Model} :
    (engine.analyze arena model fun _ => false).stopped = false ↔
      ∀ node ∈ arena.nodes, (engine.visit (engine.context arena model) node).stops = false := by
  rw [analyze, stopped_walk, Bool.false_or, List.any_eq_false]
  simp only [Bool.not_eq_true]

theorem analyze_of_unstopped {engine : Engine} {arena : Arena} {model : Model}
    (hRun : (engine.analyze arena model fun _ => false).stopped = false) :
    engine.analyze arena model (fun _ => false) =
      ⟨some (arena.nodes.flatMap fun node =>
          (engine.visit (engine.context arena model) node).findings),
        arena.nodes.flatMap fun node => (engine.visit (engine.context arena model) node).log,
        false⟩ :=
  walk_of_unstopped (stopped_analyze_eq_false_iff.1 hRun) 0

def complete (engine : Engine) (arena : Arena) (model : Model) : List Finding :=
  arena.nodes.flatMap fun node =>
    (engine.registry.rulesFor node.kind).filterMap
      (engine.finding? (engine.context arena model) node)

theorem NeverStops.findings_analyze_complete {engine : Engine} (hEngine : engine.NeverStops)
    (arena : Arena) (model : Model) :
    (engine.analyze arena model fun _ => false).findings = some (engine.complete arena model) := by
  rw [hEngine.findings_analyze_never]
  simp only [findings_visit, complete]

end Engine

end CostlyCalls
