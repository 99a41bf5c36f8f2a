import Mathlib.Data.List.Basic
import CostlyCalls.Proofs.Crashes

/-!
# Where a run is stopped

A run asks before every node whether the stop signal is set. The host may set it at any moment, and
so may a rule while it checks a node; nobody takes it back. The run therefore visits the nodes up to
the first question that finds the signal set. A visit that has begun is completed: the signal is not
looked at between two rules.

`Engine.SignalAt` says when a question finds the signal set, without reference to the run. The run
and its log are then known by the position of the first such question.
-/

set_option autoImplicit false

namespace CostlyCalls

def Rule.heedlessCheck (rule : Rule) (ctx : Context) (node : Node) : Check :=
  { rule.check ctx node with stops := false }

namespace Engine

def AsksToStop (engine : Engine) (ctx : Context) (node : Node) : Prop :=
  ∃ rule ∈ engine.registry.rules, node.kind ∈ rule.kinds ∧ engine.isEnabled rule.id = true ∧
    (rule.check ctx node).stops = true

theorem stops_visit_iff {engine : Engine} {ctx : Context} {node : Node} :
    (engine.visit ctx node).stops = true ↔ engine.AsksToStop ctx node := by
  rw [stops_visit, List.any_eq_true]
  constructor
  · rintro ⟨rule, hRule, hStops⟩
    obtain ⟨hMem, hKind⟩ := Registry.mem_rulesFor_iff.1 hRule
    obtain ⟨hEnabled, hStops⟩ := Bool.and_eq_true_iff.1 hStops
    exact ⟨rule, hMem, hKind, hEnabled, hStops⟩
  · rintro ⟨rule, hMem, hKind, hEnabled, hStops⟩
    exact ⟨rule, Registry.mem_rulesFor_iff.2 ⟨hMem, hKind⟩, by rw [hEnabled, hStops]; rfl⟩

def noted (engine : Engine) (ctx : Context) (node : Node) (rule : Rule) : List Event :=
  match engine.severity? rule.id with
  | none => []
  | some severity => (engine.runRule ctx node rule severity).log

theorem log_runRules (engine : Engine) (ctx : Context) (node : Node) (rules : List Rule) :
    (engine.runRules ctx node rules).log = rules.flatMap (engine.noted ctx node) := by
  induction rules with
  | nil => rfl
  | cons rule rest ih =>
    rw [runRules, List.flatMap_cons, noted, ← ih]
    cases engine.severity? rule.id <;> rfl

theorem log_visit (engine : Engine) (ctx : Context) (node : Node) :
    (engine.visit ctx node).log =
      (engine.registry.rulesFor node.kind).flatMap (engine.noted ctx node) :=
  engine.log_runRules ctx node _

theorem findings_visit_heedless (engine : Engine) (ctx : Context) (node : Node) :
    ((engine.withChecks Rule.heedlessCheck).visit ctx node).findings =
      (engine.visit ctx node).findings := by
  rw [visit_withChecks, findings_runRules, findings_visit, List.filterMap_map]
  rfl

theorem neverStops_heedless (engine : Engine) :
    (engine.withChecks Rule.heedlessCheck).NeverStops := by
  intro rule hRule ctx node
  rw [registry_withChecks, Registry.rules_withChecks] at hRule
  obtain ⟨other, -, rfl⟩ := List.mem_map.1 hRule
  rfl

theorem findings_analyze_heedless (engine : Engine) (arena : Arena) (model : Model) :
    ((engine.withChecks Rule.heedlessCheck).analyze arena model fun _ => false).findings =
      some (arena.nodes.flatMap fun node =>
        (engine.visit (engine.context arena model) node).findings) := by
  rw [engine.neverStops_heedless.findings_analyze_never]
  simp only [findings_visit_heedless]
  rfl

/-- The question before the node at position `k` finds the signal set: by the host, or by a rule on
an earlier node. -/
def SignalAt (engine : Engine) (ctx : Context) (halt : Nat → Bool) (nodes : List Node) (k : Nat) :
    Prop :=
  halt k = true ∨ ∃ node ∈ nodes.take k, engine.AsksToStop ctx node

theorem signalAt_zero {engine : Engine} {ctx : Context} {halt : Nat → Bool} {nodes : List Node} :
    engine.SignalAt ctx halt nodes 0 ↔ halt 0 = true := by
  simp [SignalAt]

theorem signalAt_succ {engine : Engine} {ctx : Context} {halt : Nat → Bool} {node : Node}
    {rest : List Node} {k : Nat} :
    engine.SignalAt ctx halt (node :: rest) (k + 1) ↔
      (engine.visit ctx node).stops = true ∨
        engine.SignalAt ctx (fun j => halt (j + 1)) rest k := by
  simp only [SignalAt, List.take_succ_cons, List.exists_mem_cons_iff, stops_visit_iff]
  exact or_left_comm

/-- A run over nodes visits those before the first question that finds the signal set, with every
rule, and has findings only if there is no such question. -/
structure EndsAt (engine : Engine) (ctx : Context) (signal : Nat → Prop) (nodes : List Node)
    (run : Run) (k : Nat) : Prop where
  le_length : k ≤ nodes.length
  unset : ∀ j < k, ¬signal j
  set : k < nodes.length → signal k
  findings : run.findings =
    if k < nodes.length then none
    else some (nodes.flatMap fun node => (engine.visit ctx node).findings)
  log : run.log =
    ((nodes.take k).flatMap fun node =>
      (engine.registry.rulesFor node.kind).flatMap (engine.noted ctx node)) ++
    if k < nodes.length then [.cancelled ctx.file] else []

theorem walk_succ (engine : Engine) (ctx : Context) (halt : Nat → Bool) (i : Nat) (stopped : Bool)
    (nodes : List Node) :
    engine.walk ctx halt (i + 1) stopped nodes =
      engine.walk ctx (fun k => halt (k + 1)) i stopped nodes := by
  induction nodes generalizing i stopped with
  | nil => rfl
  | cons node rest ih => simp only [walk, ih]

theorem EndsAt.visit {engine : Engine} {ctx : Context} {signal : Nat → Prop} {node : Node}
    {rest : List Node} {run : Run} {k : Nat} (hUnset : ¬signal 0)
    (hEnd : engine.EndsAt ctx (fun j => signal (j + 1)) rest run k) :
    engine.EndsAt ctx signal (node :: rest) (.after (engine.visit ctx node) run) (k + 1) where
  le_length := Nat.succ_le_succ hEnd.le_length
  unset j hj := by
    cases j with
    | zero => exact hUnset
    | succ j => exact hEnd.unset j (by omega)
  set hk := hEnd.set (by simpa using hk)
  findings := by
    simp only [Run.after, hEnd.findings, List.length_cons, Nat.add_lt_add_iff_right,
      List.flatMap_cons]
    split <;> rfl
  log := by
    simp only [Run.after, hEnd.log, log_visit, List.length_cons, Nat.add_lt_add_iff_right,
      List.take_succ_cons, List.flatMap_cons, List.append_assoc]

theorem exists_endsAt_walk (engine : Engine) (ctx : Context) (halt : Nat → Bool) (stopped : Bool)
    (nodes : List Node) :
    ∃ k, engine.EndsAt ctx (fun j => stopped = true ∨ engine.SignalAt ctx halt nodes j) nodes
      (engine.walk ctx halt 0 stopped nodes) k := by
  induction nodes generalizing halt stopped with
  | nil => exact ⟨0, by simp, by simp, by simp, rfl, rfl⟩
  | cons node rest ih =>
    by_cases hStop : (stopped || halt 0) = true
    · have hSignal : stopped = true ∨ engine.SignalAt ctx halt (node :: rest) 0 := by
        rw [signalAt_zero]
        exact Bool.or_eq_true_iff.1 hStop
      rw [walk, if_pos hStop]
      exact ⟨0, by simp, by simp, fun _ => hSignal, by simp, by simp⟩
    · have hStopped : stopped = false := by simp_all
      have hUnset : ¬(stopped = true ∨ engine.SignalAt ctx halt (node :: rest) 0) := by
        rw [signalAt_zero, ← Bool.or_eq_true_iff]
        exact hStop
      have hRun : engine.walk ctx halt 0 stopped (node :: rest) =
          .after (engine.visit ctx node)
            (engine.walk ctx (fun j => halt (j + 1)) 0 (engine.visit ctx node).stops rest) := by
        rw [walk, if_neg hStop, ← walk_succ]
      obtain ⟨k, hEnd⟩ := ih (fun j => halt (j + 1)) (engine.visit ctx node).stops
      refine ⟨k + 1, hRun ▸ EndsAt.visit hUnset ?_⟩
      simpa only [signalAt_succ, hStopped, Bool.false_eq_true, false_or] using hEnd

theorem exists_endsAt_analyze (engine : Engine) (arena : Arena) (model : Model)
    (halt : Nat → Bool) :
    ∃ k, engine.EndsAt (engine.context arena model)
      (engine.SignalAt (engine.context arena model) halt arena.nodes) arena.nodes
      (engine.analyze arena model halt) k := by
  have hWalk := engine.exists_endsAt_walk (engine.context arena model) halt false arena.nodes
  simp only [Bool.false_eq_true, false_or] at hWalk
  exact hWalk

/-- Some question finds the signal set exactly if there is one and the signal is set before it, or
during the visit of a node that is not the last. -/
theorem exists_signalAt_iff {engine : Engine} {ctx : Context} {halt : Nat → Bool}
    {nodes : List Node} :
    (∃ k < nodes.length, engine.SignalAt ctx halt nodes k) ↔
      nodes ≠ [] ∧ (halt 0 = true ∨ ∃ before node after, nodes = before ++ node :: after ∧
        after ≠ [] ∧ (engine.AsksToStop ctx node ∨ halt (before.length + 1) = true)) := by
  constructor
  · rintro ⟨k, hk, hSignal⟩
    refine ⟨List.ne_nil_of_length_pos (by omega), ?_⟩
    rcases hSignal with hHalt | ⟨node, hNode, hAsks⟩
    · cases k with
      | zero => exact .inl hHalt
      | succ k =>
        refine .inr ⟨nodes.take k, nodes[k], nodes.drop (k + 1), ?_, ?_, .inr ?_⟩
        · rw [List.getElem_cons_drop, List.take_append_drop]
        · apply List.ne_nil_of_length_pos
          rw [List.length_drop]
          omega
        · rw [List.length_take, Nat.min_eq_left (by omega)]
          exact hHalt
    · obtain ⟨before, after, hTake⟩ := List.append_of_mem hNode
      refine .inr ⟨before, node, after ++ nodes.drop k, ?_, ?_, .inl hAsks⟩
      · rw [← List.cons_append, ← List.append_assoc, ← hTake, List.take_append_drop]
      · apply List.ne_nil_of_length_pos
        rw [List.length_append, List.length_drop]
        omega
  · rintro ⟨hSome, hHalt | ⟨before, node, after, rfl, hAfter, hSet⟩⟩
    · exact ⟨0, List.length_pos_iff.2 hSome, .inl hHalt⟩
    · have hLast := List.length_pos_iff.2 hAfter
      refine ⟨before.length + 1, ?_, ?_⟩
      · rw [List.length_append, List.length_cons]
        omega
      · rcases hSet with hAsks | hHalt
        · refine .inr ⟨node, ?_, hAsks⟩
          rw [List.take_length_add_append]
          exact List.mem_append_right _ List.mem_cons_self
        · exact .inl hHalt

theorem EndsAt.findings_eq_none_iff {engine : Engine} {ctx : Context} {signal : Nat → Prop}
    {nodes : List Node} {run : Run} {k : Nat} (hEnd : engine.EndsAt ctx signal nodes run k) :
    run.findings = none ↔ ∃ j < nodes.length, signal j := by
  rw [hEnd.findings]
  by_cases hk : k < nodes.length
  · rw [if_pos hk]
    exact iff_of_true rfl ⟨k, hk, hEnd.set hk⟩
  · rw [if_neg hk]
    refine iff_of_false nofun ?_
    rintro ⟨j, hj, hSignal⟩
    exact hEnd.unset j (by omega) hSignal

end Engine

/-- A run is stopped exactly if the signal is set before its first node or during the visit of a
node that is not the last. -/
theorem analyze_stop_point (engine : Engine) (arena : Arena) (model : Model)
    (halt : Nat → Bool) :
    ((engine.analyze arena model halt).findings = none ↔
      arena.nodes ≠ [] ∧ (halt 0 = true ∨ ∃ before node after,
        arena.nodes = before ++ node :: after ∧ after ≠ [] ∧
          (engine.AsksToStop (engine.context arena model) node ∨
            halt (before.length + 1) = true))) ∧
    (∃ found,
      ((engine.withChecks Rule.heedlessCheck).analyze arena model fun _ => false).findings =
        some found ∧
      ((engine.analyze arena model halt).findings = none ∨
        (engine.analyze arena model halt).findings = some found)) ∧
    ∃ k, engine.EndsAt (engine.context arena model)
      (engine.SignalAt (engine.context arena model) halt arena.nodes) arena.nodes
      (engine.analyze arena model halt) k := by
  obtain ⟨k, hEnd⟩ := engine.exists_endsAt_analyze arena model halt
  refine ⟨?_, ⟨_, engine.findings_analyze_heedless arena model, ?_⟩, k, hEnd⟩
  · rw [hEnd.findings_eq_none_iff]
    exact Engine.exists_signalAt_iff
  · rw [hEnd.findings]
    split
    · exact .inl rfl
    · exact .inr rfl

example :
    (Engine.ofRegistry {} (.ofDistinct [
      { id := ⟨1⟩, name := "one", kinds := [.literal], check := fun _ _ => ⟨.crash none, true⟩ },
      { id := ⟨2⟩, name := "two", kinds := [.literal], check := fun _ _ => ⟨.crash none, false⟩ }]
      (by decide) (by decide))).value.toOption.map (fun engine =>
        engine.analyze
          ⟨⟨"A"⟩, [{ id := ⟨1⟩, shape := .literal }, { id := ⟨2⟩, shape := .literal }], _, rfl, rfl⟩
          ⟨fun _ => none, fun _ => none, fun _ => []⟩ fun _ => false) =
      some ⟨none, [.crashed ⟨1⟩ ⟨1⟩ ⟨"A"⟩ none, .crashed ⟨2⟩ ⟨1⟩ ⟨"A"⟩ none, .cancelled ⟨"A"⟩],
        true⟩ := by
  decide +kernel

end CostlyCalls
