import CostlyCalls.Config
import CostlyCalls.Suppression

/-!
# The engine

An engine holds checked rules with their severities, the names it compares symbols with, and the
suppressions in effect. It visits the nodes of an arena in order. Before each node it looks whether
the run has been stopped; a stopped run has no findings.
-/

set_option autoImplicit false

namespace CostlyCalls

structure Engine where
  registry : Registry
  table : CapabilityTable
  facade : String
  enabled : List (RuleId × Severity)
  suppressions : List Suppression := []

namespace Engine

def enabledRules (config : Config) (registry : Registry) : List (RuleId × Severity) :=
  registry.rules.filterMap fun rule =>
    (config.severity? rule.id rule.severity).map (rule.id, ·)

/-- Build an engine from a checked registry. The capability names are checked before the facade. -/
def ofRegistry (config : Config) (registry : Registry) : Logged (Except Error Engine) :=
  match CapabilityTable.ofNames config.semantics.capabilities with
  | .error fault => ⟨.error (.ofCapabilities fault), []⟩
  | .ok table =>
    if Text.isBlankText config.semantics.facade then
      ⟨.error (.config .blankFacade), []⟩
    else
      ⟨.ok {
          registry, table
          facade := Text.trim config.semantics.facade
          enabled := enabledRules config registry },
        [.engineReady (enabledRules config registry).length registry.rules.length
          (Text.trim config.semantics.facade)]⟩

def register (rules : List Rule) : Logged (Except Error Registry) :=
  match Registry.ofRules rules with
  | .error fault => ⟨.error (.ofRegistry fault), []⟩
  | .ok registry => ⟨.ok registry, [.registered registry.rules.length]⟩

def ofRules (config : Config) (rules : List Rule) : Logged (Except Error Engine) :=
  (register rules).andThen (ofRegistry config)

def ofConfig (config : Config) : Logged (Except Error Engine) :=
  ofRules config Catalogue.rules

def withSuppressions (engine : Engine) (suppressions : List Suppression) : Engine :=
  { engine with suppressions }

def restrictTo (engine : Engine) (ids : List RuleId) : Engine :=
  { engine with enabled := engine.enabled.filter (fun e => e.1 ∈ ids) }

def severity? (engine : Engine) (id : RuleId) : Option Severity := engine.enabled.lookup id

def isEnabled (engine : Engine) (id : RuleId) : Bool := (engine.severity? id).isSome

def enabledIds (engine : Engine) : List RuleId :=
  (engine.registry.rules.map Rule.id).filter engine.isEnabled

def context (engine : Engine) (arena : Arena) (model : Model) : Context :=
  ⟨arena, model, engine.table, engine.facade⟩

structure Visit where
  findings : List Finding := []
  log : List Event := []
  stops : Bool := false
  deriving DecidableEq, Repr

def Visit.append (a b : Visit) : Visit :=
  ⟨a.findings ++ b.findings, a.log ++ b.log, a.stops || b.stops⟩

def settle (engine : Engine) (severity : Severity) (finding : Finding) : Visit :=
  let finding := { finding with severity }
  if Suppression.hides engine.suppressions finding then
    { log := [.suppressed finding.rule finding.file finding.line] }
  else
    { findings := [finding] }

def runRule (engine : Engine) (ctx : Context) (node : Node) (rule : Rule) (severity : Severity) :
    Visit :=
  let check := rule.check ctx node
  let visit : Visit :=
    match check.verdict with
    | .clear => {}
    | .report finding => engine.settle severity finding
    | .crash payload => { log := [.crashed rule.id node.id ctx.file payload] }
  { visit with stops := check.stops }

def runRules (engine : Engine) (ctx : Context) (node : Node) : List Rule → Visit
  | [] => {}
  | rule :: rest =>
    match engine.severity? rule.id with
    | none => runRules engine ctx node rest
    | some severity =>
      (engine.runRule ctx node rule severity).append (runRules engine ctx node rest)

def visit (engine : Engine) (ctx : Context) (node : Node) : Visit :=
  engine.runRules ctx node (engine.registry.rulesFor node.kind)

structure Run where
  /-- Absent if the run was stopped. -/
  findings : Option (List Finding)
  log : List Event := []
  stopped : Bool := false
  deriving DecidableEq, Repr

def Run.after (visit : Visit) (run : Run) : Run :=
  ⟨run.findings.map (visit.findings ++ ·), visit.log ++ run.log, run.stopped⟩

/-- Visit nodes in order. Before the node at position `i` the run ends if a rule has asked for a
stop on an earlier node or if the host does so (`halt i`). -/
def walk (engine : Engine) (ctx : Context) (halt : Nat → Bool) :
    Nat → Bool → List Node → Run
  | _, stopped, [] => ⟨some [], [], stopped⟩
  | i, stopped, node :: rest =>
    if stopped || halt i then
      ⟨none, [.cancelled ctx.file], true⟩
    else
      let visit := engine.visit ctx node
      Run.after visit (walk engine ctx halt (i + 1) visit.stops rest)

def analyze (engine : Engine) (arena : Arena) (model : Model) (halt : Nat → Bool) : Run :=
  engine.walk (engine.context arena model) halt 0 false arena.nodes

end Engine

end CostlyCalls
