import Mathlib.Data.List.Perm.Basic
import CostlyCalls.Proofs.Selection

/-!
# The order of registration

Rules are registered in some order, and a registry keeps it. The order decides in which sequence the
findings of one node are listed, and nothing else: whether the rules are accepted, which of them are
enabled and at which severity, and what is found at each node is the same for every order.
-/

set_option autoImplicit false

namespace CostlyCalls

namespace Registry

variable {first second : List Rule}

theorem exists_ofRules_iff {rules : List Rule} :
    (∃ registry, ofRules rules = .ok registry) ↔
      (∀ rule ∈ rules, rule.id.isFourDigit = true) ∧ (rules.map Rule.id).Nodup := by
  constructor
  · rintro ⟨registry, hRegistry⟩
    rw [← rules_of_ofRules hRegistry]
    exact ⟨registry.bounded, registry.distinct⟩
  · intro hRules
    unfold ofRules
    split
    · next fault hFault =>
      obtain ⟨index, hIndex⟩ := exists_indexed hRules.1 hRules.2
      cases hFault.symm.trans hIndex
    · exact ⟨_, rfl⟩

theorem exists_ofRules_perm_iff (hPerm : first.Perm second) :
    (∃ registry, ofRules first = .ok registry) ↔ ∃ registry, ofRules second = .ok registry := by
  rw [exists_ofRules_iff, exists_ofRules_iff, (hPerm.map Rule.id).nodup_iff]
  simp only [hPerm.mem_iff]

variable {a b : Registry}

theorem get?_perm (hPerm : a.rules.Perm b.rules) (id : RuleId) : a.get? id = b.get? id := by
  apply Option.ext
  intro rule
  rw [get?_eq_some_iff, get?_eq_some_iff, hPerm.mem_iff]

theorem rulesFor_perm (hPerm : a.rules.Perm b.rules) (kind : Kind) :
    (a.rulesFor kind).Perm (b.rulesFor kind) := by
  rw [rulesFor_eq, rulesFor_eq]
  exact hPerm.flatMap_right _

end Registry

namespace Engine

structure SameUpToOrder (a b : Engine) : Prop where
  rules : a.registry.rules.Perm b.registry.rules
  table : a.table = b.table
  facade : a.facade = b.facade
  severity? : ∀ id, a.severity? id = b.severity? id
  suppressions : a.suppressions = b.suppressions

theorem severity?_under (engine : Engine) (restriction : Option (List RuleId))
    (suppressions : List Suppression) (id : RuleId) :
    (engine.under restriction suppressions).severity? id =
      if restriction.all (id ∈ ·) then engine.severity? id else none := by
  cases restriction with
  | none => rfl
  | some ids =>
    simp only [Option.all_some, decide_eq_true_eq]
    exact engine.severity?_select ids suppressions id

namespace SameUpToOrder

variable {a b : Engine}

theorem under (hSame : a.SameUpToOrder b) (restriction : Option (List RuleId))
    (suppressions : List Suppression) :
    (a.under restriction suppressions).SameUpToOrder (b.under restriction suppressions) where
  rules := by cases restriction <;> exact hSame.rules
  table := by cases restriction <;> exact hSame.table
  facade := by cases restriction <;> exact hSame.facade
  severity? id := by rw [severity?_under, severity?_under, hSame.severity? id]
  suppressions := rfl

theorem context (hSame : a.SameUpToOrder b) (arena : Arena) (model : Model) :
    a.context arena model = b.context arena model := by
  rw [Engine.context, Engine.context, hSame.table, hSame.facade]

theorem finding?_eq (hSame : a.SameUpToOrder b) (ctx : Context) (node : Node) :
    a.finding? ctx node = b.finding? ctx node := by
  funext rule
  rw [finding?, finding?, hSame.severity?, hSame.suppressions]

theorem findings_visit_perm (hSame : a.SameUpToOrder b) (ctx : Context) (node : Node) :
    (a.visit ctx node).findings.Perm (b.visit ctx node).findings := by
  rw [findings_visit, findings_visit, hSame.finding?_eq]
  exact (Registry.rulesFor_perm hSame.rules node.kind).filterMap _

theorem stops_visit_eq (hSame : a.SameUpToOrder b) (ctx : Context) (node : Node) :
    (a.visit ctx node).stops = (b.visit ctx node).stops := by
  have hEnabled : ∀ id, a.isEnabled id = b.isEnabled id := fun id => by
    rw [isEnabled, isEnabled, hSame.severity?]
  rw [stops_visit, stops_visit]
  simp only [hEnabled]
  exact (Registry.rulesFor_perm hSame.rules node.kind).any_eq

theorem stopped_analyze_eq_false (hSame : a.SameUpToOrder b) {arena : Arena} {model : Model}
    (hRun : (a.analyze arena model fun _ => false).stopped = false) :
    (b.analyze arena model fun _ => false).stopped = false := by
  rw [stopped_analyze_eq_false_iff] at hRun ⊢
  intro node hNode
  rw [← hSame.context, ← hSame.stops_visit_eq]
  exact hRun node hNode

end SameUpToOrder

theorem exists_ofRules_perm {first second : List Rule} (hPerm : first.Perm second)
    {config : Config} {a : Engine} (hFirst : (ofRules config first).value = .ok a) :
    ∃ b, (ofRules config second).value = .ok b ∧ a.SameUpToOrder b := by
  obtain ⟨registry, hRegistry, hA⟩ := ofRules_eq_ok_iff.1 hFirst
  obtain ⟨other, hOther⟩ := (Registry.exists_ofRules_perm_iff hPerm).1 ⟨registry, hRegistry⟩
  have hB := ofRegistry_of_semantics rfl hA other
  have hRules : a.registry.rules.Perm other.rules := by
    rw [registry_of_ofRegistry hA, Registry.rules_of_ofRules hRegistry,
      Registry.rules_of_ofRules hOther]
    exact hPerm
  refine ⟨_, ofRules_eq_ok_iff.2 ⟨other, hOther, hB⟩, hRules, rfl, rfl, fun id => ?_, rfl⟩
  rw [(Configured.of_ofRegistry hA).severity?, (Configured.of_ofRegistry hB).severity?,
    Registry.get?_perm hRules]

theorem exists_ofRules_perm_iff {first second : List Rule} (hPerm : first.Perm second)
    (config : Config) :
    (∃ a, (ofRules config first).value = .ok a) ↔
      ∃ b, (ofRules config second).value = .ok b := by
  constructor
  · rintro ⟨a, hFirst⟩
    obtain ⟨b, hSecond, -⟩ := exists_ofRules_perm hPerm hFirst
    exact ⟨b, hSecond⟩
  · rintro ⟨b, hSecond⟩
    obtain ⟨a, hFirst, -⟩ := exists_ofRules_perm hPerm.symm hSecond
    exact ⟨a, hFirst⟩

def findingsAt (engine : Engine) (arena : Arena) (model : Model) (node : Node) : List Finding :=
  (engine.visit (engine.context arena model) node).findings

end Engine

/-- The order in which rules are registered affects only the order of findings on a node. -/
theorem analyze_registration_order {first second : List Rule} (hPerm : first.Perm second) :
    ((∃ registry, Registry.ofRules first = .ok registry) ↔
      ∃ registry, Registry.ofRules second = .ok registry) ∧
    ∀ config,
      ((∃ a, (Engine.ofRules config first).value = .ok a) ↔
        ∃ b, (Engine.ofRules config second).value = .ok b) ∧
      ∀ a b, (Engine.ofRules config first).value = .ok a →
        (Engine.ofRules config second).value = .ok b →
        ∀ (restriction : Option (List RuleId)) (suppressions : List Suppression),
          (∀ id, (a.under restriction suppressions).severity? id =
            (b.under restriction suppressions).severity? id) ∧
          ∀ arena model, (a.runUnder restriction suppressions arena model).stopped = false →
            (a.runUnder restriction suppressions arena model).findings =
              some (arena.nodes.flatMap
                ((a.under restriction suppressions).findingsAt arena model)) ∧
            (b.runUnder restriction suppressions arena model).findings =
              some (arena.nodes.flatMap
                ((b.under restriction suppressions).findingsAt arena model)) ∧
            ∀ node ∈ arena.nodes,
              ((a.under restriction suppressions).findingsAt arena model node).Perm
                ((b.under restriction suppressions).findingsAt arena model node) := by
  refine ⟨Registry.exists_ofRules_perm_iff hPerm, fun config =>
    ⟨Engine.exists_ofRules_perm_iff hPerm config, ?_⟩⟩
  intro a b hFirst hSecond restriction suppressions
  obtain ⟨other, hOther, hSame⟩ := Engine.exists_ofRules_perm hPerm hFirst
  cases hOther.symm.trans hSecond
  have hUnder := hSame.under restriction suppressions
  refine ⟨hUnder.severity?, fun arena model hRun => ⟨?_, ?_, fun node _ => ?_⟩⟩
  · exact congrArg Engine.Run.findings (Engine.analyze_of_unstopped hRun)
  · exact congrArg Engine.Run.findings
      (Engine.analyze_of_unstopped (hUnder.stopped_analyze_eq_false hRun))
  · rw [Engine.findingsAt, Engine.findingsAt, hUnder.context]
    exact hUnder.findings_visit_perm _ node

def literalRule (id : RuleId) (kinds : List Kind) : Rule where
  id
  name := "literal"
  kinds
  check ctx node := ⟨.report (.atNode id .info none ctx node "literal"), false⟩

def literalArena : Arena where
  file := ⟨"src/Literals.cs"⟩
  nodes := [{ id := ⟨7⟩, shape := .literal }, { id := ⟨3⟩, shape := .literal }]
  index := _
  built := rfl
  resolved := rfl

def literalModel : Model := ⟨fun _ => none, fun _ => none, fun _ => []⟩

def literalRules : List Rule :=
  [literalRule ⟨9001⟩ [.literal, .literal], literalRule ⟨9002⟩ [.literal]]

theorem analyze_registration_order_literals :
    ∃ a b found others, (Engine.ofRules {} literalRules).value = .ok a ∧
      (Engine.ofRules {} literalRules.reverse).value = .ok b ∧
      (a.runUnder none [] literalArena literalModel).findings = some found ∧
      (b.runUnder none [] literalArena literalModel).findings = some others ∧
      found.map Finding.rule = [⟨9001⟩, ⟨9001⟩, ⟨9002⟩, ⟨9001⟩, ⟨9001⟩, ⟨9002⟩] ∧
      others.map Finding.rule = [⟨9002⟩, ⟨9001⟩, ⟨9001⟩, ⟨9002⟩, ⟨9001⟩, ⟨9001⟩] ∧
      ∀ node ∈ literalArena.nodes,
        ((a.under none []).findingsAt literalArena literalModel node).Perm
          ((b.under none []).findingsAt literalArena literalModel node) := by
  obtain ⟨a, hFirst, hRun, hFound⟩ : ∃ a, (Engine.ofRules {} literalRules).value = .ok a ∧
      (a.runUnder none [] literalArena literalModel).stopped = false ∧
      (literalArena.nodes.flatMap ((a.under none []).findingsAt literalArena literalModel)).map
        Finding.rule = [⟨9001⟩, ⟨9001⟩, ⟨9002⟩, ⟨9001⟩, ⟨9001⟩, ⟨9002⟩] :=
    ⟨_, rfl, by decide +kernel, by decide +kernel⟩
  obtain ⟨b, hSecond, hOthers⟩ : ∃ b, (Engine.ofRules {} literalRules.reverse).value = .ok b ∧
      (literalArena.nodes.flatMap ((b.under none []).findingsAt literalArena literalModel)).map
        Finding.rule = [⟨9002⟩, ⟨9001⟩, ⟨9001⟩, ⟨9002⟩, ⟨9001⟩, ⟨9001⟩] :=
    ⟨_, rfl, by decide +kernel⟩
  obtain ⟨-, hEngines⟩ := analyze_registration_order (List.reverse_perm literalRules).symm
  obtain ⟨-, hRuns⟩ := (hEngines {}).2 a b hFirst hSecond none []
  obtain ⟨hHere, hThere, hNodes⟩ := hRuns literalArena literalModel hRun
  exact ⟨a, b, _, _, hFirst, hSecond, hHere, hThere, hFound, hOthers, hNodes⟩

end CostlyCalls
