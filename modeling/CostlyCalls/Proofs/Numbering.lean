import Mathlib.Data.List.Basic
import CostlyCalls.Proofs.CallSites
import CostlyCalls.Proofs.Construction
import CostlyCalls.Proofs.Loading

/-!
# Other numberings of a snapshot

A snapshot may number its nodes differently and list them in another order. It is loaded either way
or not at all, and the built-in rules report the same about a node: they reach other nodes only
through references, and messages do not mention identifiers.
-/

set_option autoImplicit false

namespace CostlyCalls

variable {f : NodeId → NodeId}

def Shape.renumber (f : NodeId → NodeId) : Shape → Shape
  | .invocation callee arguments => .invocation (f callee) (arguments.map f)
  | .memberAccess receiver name => .memberAccess (f receiver) name
  | .identifier name => .identifier name
  | .literal => .literal
  | .fieldDeclaration name => .fieldDeclaration name
  | .propertyDeclaration name => .propertyDeclaration name
  | .methodDeclaration name => .methodDeclaration name
  | .other => .other

def Node.renumber (f : NodeId → NodeId) (node : Node) : Node :=
  { node with id := f node.id, shape := node.shape.renumber f }

def SnapshotNode.renumber (f : NodeId → NodeId) (n : SnapshotNode) : SnapshotNode :=
  { n with node := n.node.renumber f }

@[simp] theorem Node.kind_renumber (node : Node) : (node.renumber f).kind = node.kind := by
  cases hShape : node.shape <;> simp [kind, renumber, hShape, Shape.renumber, Shape.kind]

@[simp] theorem Node.children_renumber (node : Node) :
    (node.renumber f).children = node.children.map f := by
  cases hShape : node.shape <;> simp [children, renumber, hShape, Shape.renumber, Shape.children]

@[simp] theorem Node.displayName_renumber (node : Node) :
    (node.renumber f).displayName = node.displayName := by
  cases hShape : node.shape <;> simp [displayName, renumber, hShape, Shape.renumber]

namespace Snapshot

def renumber (f : NodeId → NodeId) (snapshot : Snapshot) : Snapshot :=
  { snapshot with nodes := snapshot.nodes.map (SnapshotNode.renumber f) }

def withNodes (snapshot : Snapshot) (nodes : List SnapshotNode) : Snapshot :=
  { snapshot with nodes }

def mentioned (snapshot : Snapshot) : List NodeId :=
  snapshot.ids ++ snapshot.nodes.flatMap fun n => n.node.children

/-- Different identifiers of the snapshot get different numbers. -/
def KeptApart (snapshot : Snapshot) (f : NodeId → NodeId) : Prop :=
  ∀ a ∈ snapshot.mentioned, ∀ b ∈ snapshot.mentioned, f a = f b → a = b

theorem ids_renumber (snapshot : Snapshot) : (snapshot.renumber f).ids = snapshot.ids.map f := by
  simp only [ids, renumber, List.map_map]
  rfl

theorem wellFormed_renumber_iff {snapshot : Snapshot} (hApart : snapshot.KeptApart f) :
    (snapshot.renumber f).WellFormed ↔ snapshot.WellFormed := by
  have hIds : ∀ id ∈ snapshot.ids, id ∈ snapshot.mentioned := fun id hId =>
    List.mem_append_left _ hId
  have hChildren : ∀ n ∈ snapshot.nodes, ∀ child ∈ n.node.children, child ∈ snapshot.mentioned :=
    fun n hn child hChild => List.mem_append_right _ (List.mem_flatMap.2 ⟨n, hn, hChild⟩)
  have hMem : ∀ id ∈ snapshot.mentioned, f id ∈ snapshot.ids.map f ↔ id ∈ snapshot.ids := by
    intro id hId
    constructor
    · intro hImage
      obtain ⟨other, hOther, hEq⟩ := List.mem_map.1 hImage
      exact hApart other (hIds other hOther) id hId hEq ▸ hOther
    · exact List.mem_map_of_mem
  constructor
  · rintro ⟨hDistinct, hClosed⟩
    rw [ids_renumber] at hDistinct hClosed
    refine ⟨(List.pairwise_map.1 hDistinct).imp fun hNe hEq => hNe (congrArg f hEq), ?_⟩
    intro n hn child hChild
    have hImage := hClosed (n.renumber f) (List.mem_map_of_mem hn) (f child)
      (by
        rw [SnapshotNode.renumber, Node.children_renumber]
        exact List.mem_map_of_mem hChild)
    exact (hMem child (hChildren n hn child hChild)).1 hImage
  · rintro ⟨hDistinct, hClosed⟩
    constructor
    · rw [ids_renumber]
      refine List.pairwise_map.2 (hDistinct.imp_of_mem fun {a b} ha hb hNe hEq => ?_)
      exact hNe (hApart a (hIds a ha) b (hIds b hb) hEq)
    · rw [ids_renumber]
      intro m hm child hChild
      obtain ⟨n, hn, rfl⟩ := List.mem_map.1 hm
      rw [SnapshotNode.renumber, Node.children_renumber] at hChild
      obtain ⟨old, hOld, rfl⟩ := List.mem_map.1 hChild
      exact List.mem_map_of_mem (hClosed n hn old hOld)

theorem wellFormed_perm_iff {snapshot other : Snapshot}
    (hPerm : other.nodes.Perm snapshot.nodes) : other.WellFormed ↔ snapshot.WellFormed := by
  have hIds : other.ids.Perm snapshot.ids := hPerm.map _
  constructor
  · rintro ⟨hDistinct, hClosed⟩
    exact ⟨hIds.nodup_iff.1 hDistinct, fun n hn child hChild =>
      hIds.mem_iff.1 (hClosed n (hPerm.mem_iff.2 hn) child hChild)⟩
  · rintro ⟨hDistinct, hClosed⟩
    exact ⟨hIds.nodup_iff.2 hDistinct, fun n hn child hChild =>
      hIds.mem_iff.2 (hClosed n (hPerm.mem_iff.1 hn) child hChild)⟩

end Snapshot

namespace Context

theorem Shows.node?_eq {ctx : Context} {snapshot : Snapshot} (hCtx : ctx.Shows snapshot)
    {n : SnapshotNode} (hn : n ∈ snapshot.nodes) : ctx.node? n.node.id = some n.node := by
  refine Arena.get?_eq_some_iff.2 ⟨?_, rfl⟩
  rw [hCtx.nodes]
  exact List.mem_map_of_mem hn

theorem Shows.symbol?_eq {ctx : Context} {snapshot : Snapshot} (hCtx : ctx.Shows snapshot)
    {n : SnapshotNode} (hn : n ∈ snapshot.nodes) : ctx.model.symbol? n.node.id = n.symbol := by
  rw [hCtx.model, hCtx.wellFormed.symbol?_model hn]

theorem Shows.type?_eq {ctx : Context} {snapshot : Snapshot} (hCtx : ctx.Shows snapshot)
    {n : SnapshotNode} (hn : n ∈ snapshot.nodes) : ctx.model.type? n.node.id = n.type := by
  rw [hCtx.model, hCtx.wellFormed.type?_model hn]

/-- Two contexts of one engine: `ctx` shows a snapshot, and `other` the same nodes under other
numbers. -/
structure Renumbered (f : NodeId → NodeId) (snapshot : Snapshot) (ctx other : Context) : Prop where
  shown : ctx.Shows snapshot
  file : other.file = ctx.file
  table : other.table = ctx.table
  facade : other.facade = ctx.facade
  interfaces : other.model.interfaces = ctx.model.interfaces
  node? : ∀ n ∈ snapshot.nodes, other.node? (f n.node.id) = some (n.node.renumber f)
  symbol? : ∀ n ∈ snapshot.nodes, other.model.symbol? (f n.node.id) = n.symbol
  type? : ∀ n ∈ snapshot.nodes, other.model.type? (f n.node.id) = n.type

theorem Renumbered.of_shows {snapshot listed : Snapshot} {ctx other : Context}
    (hCtx : ctx.Shows snapshot) (hOther : other.Shows listed)
    (hMem : ∀ n ∈ snapshot.nodes, n.renumber f ∈ listed.nodes) (hFile : listed.file = snapshot.file)
    (hTypes : listed.types = snapshot.types) (hTable : other.table = ctx.table)
    (hFacade : other.facade = ctx.facade) : Renumbered f snapshot ctx other := by
  refine ⟨hCtx, ?_, hTable, hFacade, ?_, ?_, ?_, ?_⟩
  · rw [hOther.file, hCtx.file, hFile]
  · rw [hOther.model, hCtx.model]
    show listed.types.interfacesOf = snapshot.types.interfacesOf
    rw [hTypes]
  · exact fun n hn => hOther.node?_eq (hMem n hn)
  · exact fun n hn => hOther.symbol?_eq (hMem n hn)
  · exact fun n hn => hOther.type?_eq (hMem n hn)

end Context

theorem Predicate.holds_congr {predicate : Predicate} {table : CapabilityTable} {a b : Model}
    {type : StaticType} (hInterfaces : a.interfaces = b.interfaces) :
    predicate.holds table a type = predicate.holds table b type := by
  simp only [holds, CapabilityTable.has, hInterfaces]

section

variable {snapshot : Snapshot} {ctx other : Context} (hCtx : ctx.Renumbered f snapshot other)
include hCtx

theorem CallSite.receiver?_renumber {n : SnapshotNode} (hn : n ∈ snapshot.nodes) :
    receiver? other (n.node.renumber f) = (receiver? ctx n.node).map f := by
  unfold receiver?
  cases hShape : n.node.shape with
  | memberAccess receiver name => simp [Node.renumber, hShape, Shape.renumber]
  | invocation calleeId arguments =>
    have hChild : calleeId ∈ n.node.children := by simp [Node.children, hShape, Shape.children]
    obtain ⟨callee, hCallee, rfl⟩ := List.mem_map.1 (hCtx.shown.wellFormed.closed n hn _ hChild)
    simp only [Node.renumber, hShape, Shape.renumber, hCtx.node? callee hCallee,
      hCtx.shown.node?_eq hCallee, Option.map_some]
    cases callee.node.shape <;> rfl
  | identifier | literal | fieldDeclaration | propertyDeclaration | methodDeclaration | other =>
    simp [Node.renumber, hShape, Shape.renumber]

theorem CallSite.find?_renumber {n : SnapshotNode} (hn : n ∈ snapshot.nodes) (operation : String)
    (predicate : Predicate) :
    find? other (n.node.renumber f) operation predicate =
      (find? ctx n.node operation predicate).map
        fun site => { site with receiver := f site.receiver } := by
  have hSymbol : other.model.symbol? (n.node.renumber f).id = ctx.model.symbol? n.node.id := by
    rw [hCtx.shown.symbol?_eq hn]
    exact hCtx.symbol? n hn
  unfold find?
  rw [receiver?_renumber hCtx hn, hSymbol, hCtx.facade, hCtx.table]
  cases hReceiver : receiver? ctx n.node with
  | none => rfl
  | some receiver =>
    obtain ⟨v, hv, rfl, -⟩ := (hCtx.shown.receiver?_eq_some_iff hn).1 hReceiver
    have hType : other.model.type? (f v.node.id) = ctx.model.type? v.node.id := by
      rw [hCtx.shown.type?_eq hv, hCtx.type? v hv]
    simp only [Option.map_some, Option.bind_eq_bind, Option.bind_some, hType,
      Predicate.holds_congr hCtx.interfaces, Option.map_bind, Function.comp_def]
    rfl

theorem CallRule.site?_renumber (rule : CallRule) {n : SnapshotNode} (hn : n ∈ snapshot.nodes) :
    rule.site? other (n.node.renumber f) =
      (rule.site? ctx n.node).map fun site => { site with receiver := f site.receiver } := by
  unfold site?
  rw [List.map_findSome?]
  congr
  funext operation
  exact CallSite.find?_renumber hCtx hn operation rule.predicate

theorem CallRule.subject_renumber {v : SnapshotNode} (hv : v ∈ snapshot.nodes) :
    subject other (f v.node.id) = subject ctx v.node.id := by
  rw [subject, subject, hCtx.node? v hv, hCtx.shown.node?_eq hv, Option.map_some, Option.map_some,
    Node.displayName_renumber]

theorem Finding.atNode_renumber {rule : RuleId} {severity : Severity}
    {explanation : Option Explanation} {node : Node} {message : String} :
    atNode rule severity explanation other (node.renumber f) message =
      atNode rule severity explanation ctx node message := by
  simp only [atNode, hCtx.file, Node.renumber]

theorem CallRule.finding?_renumber (rule : CallRule) {n : SnapshotNode} (hn : n ∈ snapshot.nodes) :
    rule.finding? other (n.node.renumber f) = rule.finding? ctx n.node := by
  unfold finding?
  rw [site?_renumber hCtx rule hn]
  cases hSite : rule.site? ctx n.node with
  | none => rfl
  | some site =>
    obtain ⟨operation, _, hFind⟩ := site?_eq_some_iff.1 hSite
    obtain ⟨receiver, _, _, hReceiver, _, _, _, _, _, _, rfl⟩ := CallSite.find?_eq_some_iff.1 hFind
    obtain ⟨v, hv, rfl, -⟩ := (hCtx.shown.receiver?_eq_some_iff hn).1 hReceiver
    simp only [Option.map_some, subject_renumber hCtx hv, Finding.atNode_renumber hCtx]

theorem DeclarationRule.finding?_renumber (rule : DeclarationRule) {n : SnapshotNode}
    (hn : n ∈ snapshot.nodes) :
    rule.finding? other (n.node.renumber f) = rule.finding? ctx n.node := by
  have hSymbol : other.model.symbol? (n.node.renumber f).id = ctx.model.symbol? n.node.id := by
    rw [hCtx.shown.symbol?_eq hn]
    exact hCtx.symbol? n hn
  simp only [finding?, hSymbol, Finding.atNode_renumber hCtx]

theorem Rule.IsStandard.report?_renumber {rule : Rule} (hRule : rule.IsStandard)
    {n : SnapshotNode} (hn : n ∈ snapshot.nodes) :
    rule.report? other (n.node.renumber f) = rule.report? ctx n.node := by
  cases hRule with
  | call rule => simp only [CallRule.report?_toRule, rule.finding?_renumber hCtx hn]
  | declaration rule => simp only [DeclarationRule.report?_toRule, rule.finding?_renumber hCtx hn]

theorem Engine.findings_visit_renumber {engine : Engine}
    (hRules : ∀ rule ∈ engine.registry.rules, rule.IsStandard) {n : SnapshotNode}
    (hn : n ∈ snapshot.nodes) :
    (engine.visit other (n.node.renumber f)).findings = (engine.visit ctx n.node).findings := by
  rw [findings_visit, findings_visit, Node.kind_renumber]
  apply List.filterMap_congr
  intro rule hRule
  have hStandard := hRules rule (Registry.mem_rulesFor_iff.1 hRule).1
  simp only [finding?, hStandard.report?_renumber hCtx hn]

end

theorem Shape.renumber_id (shape : Shape) : shape.renumber id = shape := by
  cases shape <;> simp [renumber]

theorem SnapshotNode.renumber_id (n : SnapshotNode) : n.renumber id = n := by
  simp [renumber, Node.renumber, Shape.renumber_id]

theorem Snapshot.renumber_id (snapshot : Snapshot) : snapshot.renumber id = snapshot := by
  have hNode : SnapshotNode.renumber id = id := funext SnapshotNode.renumber_id
  simp [renumber, hNode]

namespace Engine

/-- What a run that nobody stops finds in a snapshot; absent if the snapshot is not loaded. -/
def findingsIn (engine : Engine) (snapshot : Snapshot) : Option (List Finding) :=
  match snapshot.load with
  | .error _ => none
  | .ok (arena, model) => (engine.analyze arena model fun _ => false).findings

theorem NeverStops.findingsIn_eq {engine : Engine} (hEngine : engine.NeverStops)
    {snapshot : Snapshot} {arena : Arena} {model : Model}
    (hLoad : snapshot.load = .ok (arena, model)) :
    engine.findingsIn snapshot = some (snapshot.nodes.flatMap fun n =>
      (engine.visit (engine.context arena model) n.node).findings) := by
  obtain ⟨-, hNodes, -⟩ := Snapshot.load_eq_ok_iff.1 hLoad
  simp only [findingsIn, hLoad]
  rw [hEngine.findings_analyze_never, hNodes, List.flatMap_map]

theorem context_shows {engine : Engine} {snapshot : Snapshot} {arena : Arena} {model : Model}
    (hLoad : snapshot.load = .ok (arena, model)) : (engine.context arena model).Shows snapshot := by
  obtain ⟨hFile, hNodes, hModel⟩ := Snapshot.load_eq_ok_iff.1 hLoad
  exact ⟨.of_load hLoad, hFile, hNodes, hModel⟩

theorem exists_findingsIn_perm {engine : Engine}
    (hRules : engine.registry.rules = Catalogue.rules) {snapshot listed : Snapshot}
    (hApart : snapshot.KeptApart f) (hPerm : listed.nodes.Perm (snapshot.renumber f).nodes)
    (hFile : listed.file = snapshot.file) (hTypes : listed.types = snapshot.types)
    (hLoaded : ∃ loaded, snapshot.load = .ok loaded) :
    ∃ findings found, engine.findingsIn snapshot = some findings ∧
      engine.findingsIn listed = some found ∧ found.Perm findings ∧
      (listed.nodes = (snapshot.renumber f).nodes → found = findings) := by
  have hStandard : ∀ rule ∈ engine.registry.rules, rule.IsStandard := fun rule hRule =>
    Catalogue.isStandard (hRules ▸ hRule)
  have hEngine : engine.NeverStops := fun rule hRule => (hStandard rule hRule).neverStops
  have hWellFormed : listed.WellFormed := by
    rw [Snapshot.wellFormed_perm_iff hPerm, Snapshot.wellFormed_renumber_iff hApart]
    exact Snapshot.exists_load_iff.1 hLoaded
  obtain ⟨⟨arena, model⟩, hLoad⟩ := hLoaded
  obtain ⟨⟨other, otherModel⟩, hListed⟩ := Snapshot.exists_load_iff.2 hWellFormed
  have hCtx : (engine.context arena model).Renumbered f snapshot
      (engine.context other otherModel) :=
    .of_shows (context_shows hLoad) (context_shows hListed)
      (fun n hn => hPerm.mem_iff.2 (List.mem_map_of_mem hn)) hFile hTypes rfl rfl
  have hVisits : ((snapshot.renumber f).nodes.flatMap fun n =>
      (engine.visit (engine.context other otherModel) n.node).findings) =
        snapshot.nodes.flatMap fun n =>
          (engine.visit (engine.context arena model) n.node).findings := by
    rw [Snapshot.renumber, List.flatMap_map]
    exact List.flatMap_congr fun n hn => findings_visit_renumber hCtx hStandard hn
  refine ⟨_, _, hEngine.findingsIn_eq hLoad, hEngine.findingsIn_eq hListed, ?_, fun hNodes => ?_⟩
  · exact hVisits ▸ hPerm.flatMap_right _
  · rw [hNodes, hVisits]

theorem findingsIn_eq_none {engine : Engine} {snapshot : Snapshot}
    (hRefused : ¬∃ loaded, snapshot.load = .ok loaded) : engine.findingsIn snapshot = none := by
  cases hLoad : snapshot.load with
  | error fault => simp [findingsIn, hLoad]
  | ok loaded => exact absurd ⟨loaded, hLoad⟩ hRefused

end Engine

namespace Snapshot

theorem exists_load_renumber_iff {snapshot : Snapshot} (hApart : snapshot.KeptApart f) :
    (∃ loaded, (snapshot.renumber f).load = .ok loaded) ↔
      ∃ loaded, snapshot.load = .ok loaded := by
  rw [exists_load_iff, exists_load_iff, wellFormed_renumber_iff hApart]

theorem exists_load_perm_iff {snapshot other : Snapshot}
    (hPerm : other.nodes.Perm snapshot.nodes) :
    (∃ loaded, other.load = .ok loaded) ↔ ∃ loaded, snapshot.load = .ok loaded := by
  rw [exists_load_iff, exists_load_iff, wellFormed_perm_iff hPerm]

theorem KeptApart.of_perm {snapshot other : Snapshot} (hApart : snapshot.KeptApart f)
    (hPerm : other.nodes.Perm snapshot.nodes) : other.KeptApart f := by
  have hMentioned : other.mentioned.Perm snapshot.mentioned :=
    (hPerm.map _).append (hPerm.flatMap_right _)
  intro a ha b hb hEq
  exact hApart a (hMentioned.mem_iff.1 ha) b (hMentioned.mem_iff.1 hb) hEq

end Snapshot

theorem Engine.findingsIn_renumber {engine : Engine}
    (hRules : engine.registry.rules = Catalogue.rules) {snapshot : Snapshot}
    (hApart : snapshot.KeptApart f) :
    engine.findingsIn (snapshot.renumber f) = engine.findingsIn snapshot := by
  by_cases hLoaded : ∃ loaded, snapshot.load = .ok loaded
  · obtain ⟨findings, found, hFindings, hFound, -, hSame⟩ :=
      exists_findingsIn_perm hRules hApart (.refl _) rfl rfl hLoaded
    rw [hFindings, hFound, hSame rfl]
  · rw [findingsIn_eq_none hLoaded,
      findingsIn_eq_none (mt (Snapshot.exists_load_renumber_iff hApart).1 hLoaded)]

/-- Other numbers for the nodes do not change what is found, and another order of the nodes changes
only the order of the findings. -/
theorem analyze_representation_independent {config : Config} {engine : Engine}
    (hEngine : (Engine.ofConfig config).value = .ok engine) (suppressions : List Suppression)
    {snapshot : Snapshot} (hApart : snapshot.KeptApart f) {nodes : List SnapshotNode}
    (hPerm : nodes.Perm snapshot.nodes) :
    ((∃ loaded, (snapshot.renumber f).load = .ok loaded) ↔
      ∃ loaded, snapshot.load = .ok loaded) ∧
    ((∃ loaded, (snapshot.withNodes nodes).load = .ok loaded) ↔
      ∃ loaded, snapshot.load = .ok loaded) ∧
    ((∃ loaded, ((snapshot.withNodes nodes).renumber f).load = .ok loaded) ↔
      ∃ loaded, snapshot.load = .ok loaded) ∧
    ∀ arena model, snapshot.load = .ok (arena, model) →
      ∃ findings found,
        ((engine.withSuppressions suppressions).analyze arena model fun _ => false).findings =
          some findings ∧
        (engine.withSuppressions suppressions).findingsIn (snapshot.renumber f) = some findings ∧
        (engine.withSuppressions suppressions).findingsIn (snapshot.withNodes nodes) =
          some found ∧
        (engine.withSuppressions suppressions).findingsIn ((snapshot.withNodes nodes).renumber f) =
          some found ∧
        found.Perm findings := by
  have hConfigured : engine.Configured config Catalogue.rules := .of_ofRules hEngine
  have hRules : (engine.withSuppressions suppressions).registry.rules = Catalogue.rules :=
    hConfigured.rules
  have hListed : (snapshot.withNodes nodes).nodes.Perm snapshot.nodes := hPerm
  have hListedApart : (snapshot.withNodes nodes).KeptApart f := hApart.of_perm hListed
  refine ⟨Snapshot.exists_load_renumber_iff hApart, Snapshot.exists_load_perm_iff hListed, ?_, ?_⟩
  · rw [Snapshot.exists_load_renumber_iff hListedApart, Snapshot.exists_load_perm_iff hListed]
  · intro arena model hLoad
    have hIdentity : snapshot.KeptApart id := fun _ _ _ _ hEq => hEq
    have hNodes : (snapshot.withNodes nodes).nodes.Perm (snapshot.renumber id).nodes := by
      rw [Snapshot.renumber_id]
      exact hPerm
    obtain ⟨findings, found, hFindings, hFound, hSame, -⟩ :=
      Engine.exists_findingsIn_perm hRules hIdentity hNodes rfl rfl ⟨_, hLoad⟩
    have hRun : (engine.withSuppressions suppressions).findingsIn snapshot =
        ((engine.withSuppressions suppressions).analyze arena model fun _ => false).findings := by
      simp only [Engine.findingsIn, hLoad]
    refine ⟨findings, found, hRun ▸ hFindings, ?_, hFound, ?_, hSame⟩
    · rw [Engine.findingsIn_renumber hRules hApart, hFindings]
    · rw [Engine.findingsIn_renumber hRules hListedApart, hFound]

def distinctTags : Snapshot where
  file := ⟨"src/Tags.cs"⟩
  nodes := [
    { node := { id := ⟨1⟩, shape := .identifier "tags" }
      type := some (.array (.named "System.String")) },
    { node := { id := ⟨2⟩, shape := .memberAccess ⟨1⟩ "Distinct" }
      symbol := some (.method {
        name := "Distinct", containingType := some "System.Linq.Enumerable" }) },
    { node := { id := ⟨3⟩, shape := .invocation ⟨2⟩ [⟨1⟩] } }]

def tagsAndLabels : Snapshot :=
  distinctTags.withNodes (distinctTags.nodes ++ [
    { node := { id := ⟨4⟩, shape := .fieldDeclaration "labels" }
      symbol := some (.typed .field "labels" (.array (.named "System.String"))) }])

theorem analyze_representation_independent_tagsAndLabels :
    ∃ engine findings found, (Engine.ofConfig {}).value = .ok engine ∧
      (engine.withSuppressions []).findingsIn
        (tagsAndLabels.renumber fun id => ⟨4294967295 - id.value⟩) = some findings ∧
      (engine.withSuppressions []).findingsIn
        (tagsAndLabels.withNodes tagsAndLabels.nodes.reverse) = some found ∧
      found.Perm findings ∧
      findings.map Finding.rule = [⟨4⟩, ⟨2⟩] ∧ found.map Finding.rule = [⟨2⟩, ⟨4⟩] := by
  obtain ⟨engine, hEngine, hRules, hReversed⟩ :
      ∃ engine, (Engine.ofConfig {}).value = .ok engine ∧
        ((engine.withSuppressions []).findingsIn
          (tagsAndLabels.renumber fun id => ⟨4294967295 - id.value⟩)).map (List.map Finding.rule) =
            some [⟨4⟩, ⟨2⟩] ∧
        ((engine.withSuppressions []).findingsIn
          (tagsAndLabels.withNodes tagsAndLabels.nodes.reverse)).map (List.map Finding.rule) =
            some [⟨2⟩, ⟨4⟩] :=
    ⟨_, rfl, by decide +kernel, by decide +kernel⟩
  have hApart : tagsAndLabels.KeptApart fun id => ⟨4294967295 - id.value⟩ := by
    unfold Snapshot.KeptApart
    decide
  have hWellFormed : tagsAndLabels.WellFormed := ⟨by decide, by decide⟩
  obtain ⟨⟨arena, model⟩, hLoad⟩ := Snapshot.exists_load_iff.2 hWellFormed
  obtain ⟨-, -, -, hFindings⟩ := analyze_representation_independent hEngine [] hApart
    (List.reverse_perm tagsAndLabels.nodes)
  obtain ⟨findings, found, -, hRenumbered, hFound, -, hPerm⟩ := hFindings arena model hLoad
  rw [hRenumbered, Option.map_some, Option.some_inj] at hRules
  rw [hFound, Option.map_some, Option.some_inj] at hReversed
  exact ⟨engine, findings, found, hEngine, hRenumbered, hFound, hPerm, hRules, hReversed⟩

end CostlyCalls
