import CostlyCalls.Proofs.Numbering

/-!
# Parts of a snapshot

The nodes of a file may fall into parts that do not refer to each other. Each part is then a
snapshot of its own, and the whole is analysed as its parts are, one after the other. A call rule or
a declaration rule looks at a node, at the nodes it refers to and at what the model says about
these; all of them lie in the same part, and the whole answers about them as the part does.
-/

set_option autoImplicit false

namespace CostlyCalls

namespace Snapshot

variable {snapshot : Snapshot} {first second : List SnapshotNode}

def Apart (first second : List SnapshotNode) : Prop :=
  ∀ n ∈ first, ∀ m ∈ second, n.node.id ≠ m.node.id

theorem ids_withNodes_append :
    (snapshot.withNodes (first ++ second)).ids =
      (snapshot.withNodes first).ids ++ (snapshot.withNodes second).ids :=
  List.map_append

theorem WellFormed.append (hFirst : (snapshot.withNodes first).WellFormed)
    (hSecond : (snapshot.withNodes second).WellFormed) (hApart : Apart first second) :
    (snapshot.withNodes (first ++ second)).WellFormed := by
  constructor
  · rw [ids_withNodes_append]
    refine List.nodup_append.2 ⟨hFirst.distinct, hSecond.distinct, ?_⟩
    intro a ha b hb
    obtain ⟨n, hn, rfl⟩ := List.mem_map.1 ha
    obtain ⟨m, hm, rfl⟩ := List.mem_map.1 hb
    exact hApart n hn m hm
  · intro n hn child hChild
    rw [ids_withNodes_append, List.mem_append]
    rcases List.mem_append.1 hn with hn | hn
    · exact .inl (hFirst.closed n hn child hChild)
    · exact .inr (hSecond.closed n hn child hChild)

end Snapshot

namespace Engine

theorem findings_visit_part {engine : Engine}
    (hRules : ∀ rule ∈ engine.registry.rules, rule.IsStandard) {part whole : Snapshot}
    {ctx other : Context} (hPart : ctx.Shows part) (hWhole : other.Shows whole)
    (hNodes : ∀ n ∈ part.nodes, n ∈ whole.nodes) (hFile : whole.file = part.file)
    (hTypes : whole.types = part.types) (hTable : other.table = ctx.table)
    (hFacade : other.facade = ctx.facade) {n : SnapshotNode} (hn : n ∈ part.nodes) :
    (engine.visit other n.node).findings = (engine.visit ctx n.node).findings := by
  have hSame : ctx.Renumbered id part other := by
    refine .of_shows hPart hWhole ?_ hFile hTypes hTable hFacade
    intro m hm
    rw [SnapshotNode.renumber_id]
    exact hNodes m hm
  have hNode : n.node.renumber id = n.node := congrArg SnapshotNode.node n.renumber_id
  have hVisit := findings_visit_renumber hSame hRules hn
  rw [hNode] at hVisit
  exact hVisit

/-- What is found in a part on its own is what the whole shows at its nodes. -/
theorem findingsIn_part {engine : Engine}
    (hRules : ∀ rule ∈ engine.registry.rules, rule.IsStandard) {snapshot : Snapshot}
    {part nodes : List SnapshotNode} (hNodes : ∀ n ∈ part, n ∈ nodes) {arena : Arena}
    {model : Model} (hWhole : (snapshot.withNodes nodes).load = .ok (arena, model))
    (hPart : (snapshot.withNodes part).WellFormed) :
    engine.findingsIn (snapshot.withNodes part) =
      some (part.flatMap fun n => (engine.visit (engine.context arena model) n.node).findings) := by
  have hNever : engine.NeverStops := fun rule hRule => (hRules rule hRule).neverStops
  obtain ⟨⟨partArena, partModel⟩, hLoad⟩ := Snapshot.exists_load_iff.2 hPart
  rw [hNever.findingsIn_eq hLoad, Option.some_inj]
  apply List.flatMap_congr
  intro n hn
  exact (findings_visit_part hRules (context_shows hLoad) (context_shows hWhole) hNodes rfl rfl rfl
    rfl hn).symm

end Engine

/-- Lists of nodes that have no identifier in common are analysed independently. -/
theorem analyze_compositional {engine : Engine}
    (hRules : ∀ rule ∈ engine.registry.rules, rule.IsStandard) {snapshot : Snapshot}
    {first second : List SnapshotNode} (hFirst : (snapshot.withNodes first).WellFormed)
    (hSecond : (snapshot.withNodes second).WellFormed)
    (hApart : Snapshot.Apart first second) :
    ∃ arena model found others,
      (snapshot.withNodes (first ++ second)).load = .ok (arena, model) ∧
      engine.findingsIn (snapshot.withNodes first) = some found ∧
      engine.findingsIn (snapshot.withNodes second) = some others ∧
      (engine.analyze arena model fun _ => false).findings = some (found ++ others) := by
  have hNever : engine.NeverStops := fun rule hRule => (hRules rule hRule).neverStops
  obtain ⟨⟨arena, model⟩, hLoad⟩ := Snapshot.exists_load_iff.2 (hFirst.append hSecond hApart)
  refine ⟨arena, model, _, _, hLoad,
    Engine.findingsIn_part hRules (fun n hn => List.mem_append_left _ hn) hLoad hFirst,
    Engine.findingsIn_part hRules (fun n hn => List.mem_append_right _ hn) hLoad hSecond, ?_⟩
  have hWhole := hNever.findingsIn_eq hLoad
  rw [Engine.findingsIn, hLoad] at hWhole
  exact hWhole.trans (congrArg some List.flatMap_append)

def distinctOnArray : CallRule where
  id := ⟨2001⟩
  name := "distinct-on-array"
  operations := ["Distinct"]
  predicate := .isArray
  kinds := [.memberAccess]
  message := "'\x7b0\x7d' is an array"
  explanation := { why := "", bad := "", good := "", suggestion := "Keep a set" }

def furtherTags : List SnapshotNode :=
  (distinctTags.renumber fun id => ⟨id.value + 10⟩).nodes

theorem analyze_compositional_tags :
    ∃ engine arena model found others,
      (Engine.ofRules {} (Catalogue.rules ++ [distinctOnArray.toRule])).value = .ok engine ∧
      (distinctTags.withNodes (distinctTags.nodes ++ furtherTags)).load = .ok (arena, model) ∧
      engine.findingsIn distinctTags = some found ∧
      engine.findingsIn (distinctTags.withNodes furtherTags) = some others ∧
      (engine.analyze arena model fun _ => false).findings = some (found ++ others) ∧
      found.map Finding.rule = [⟨4⟩, ⟨2001⟩] := by
  obtain ⟨engine, hEngine, hAlone⟩ : ∃ engine,
      (Engine.ofRules {} (Catalogue.rules ++ [distinctOnArray.toRule])).value = .ok engine ∧
      (engine.findingsIn distinctTags).map (List.map Finding.rule) = some [⟨4⟩, ⟨2001⟩] :=
    ⟨_, rfl, by decide +kernel⟩
  have hRules : ∀ rule ∈ engine.registry.rules, rule.IsStandard := by
    rw [(Engine.Configured.of_ofRules hEngine).rules, List.forall_mem_append]
    refine ⟨fun rule hRule => Catalogue.isStandard hRule, fun rule hRule => ?_⟩
    rw [List.mem_singleton.1 hRule]
    exact .call distinctOnArray
  have hFirst : (distinctTags.withNodes distinctTags.nodes).WellFormed := ⟨by decide, by decide⟩
  have hSecond : (distinctTags.withNodes furtherTags).WellFormed := ⟨by decide, by decide⟩
  have hApart : Snapshot.Apart distinctTags.nodes furtherTags := by
    unfold Snapshot.Apart
    decide
  obtain ⟨arena, model, found, others, hLoad, hFound, hOthers, hBoth⟩ :=
    analyze_compositional hRules hFirst hSecond hApart
  have hPart : engine.findingsIn distinctTags = some found := hFound
  rw [hPart, Option.map_some, Option.some_inj] at hAlone
  exact ⟨engine, arena, model, found, others, hEngine, hLoad, hPart, hOthers, hBoth, hAlone⟩

end CostlyCalls
