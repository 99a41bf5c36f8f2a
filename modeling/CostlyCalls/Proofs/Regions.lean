import CostlyCalls.Proofs.Exactness
import CostlyCalls.Proofs.Json.Reading
import CostlyCalls.Report.Sarif
import CostlyCalls.Snapshot.FromJson

/-!
# Regions in SARIF logs

Lines and columns count from one, in the spans of nodes as in the regions of a SARIF log. A log has
the positions of the nodes at which something is reported, unchanged. Nothing checks the spans of a
snapshot, and a node that is written without one has line and column zero; so the regions of a log
are valid exactly if the nodes that are reported have proper spans.
-/

set_option autoImplicit false

namespace CostlyCalls

def Span.IsOneIndexed (span : Span) : Prop := 1 ≤ span.line ∧ 1 ≤ span.column

/-- The region starts where the format allows it: in line one and column one, or later. -/
def Sarif.Region.IsValid (region : Region) : Prop := 1 ≤ region.startLine ∧ 1 ≤ region.startColumn

instance (region : Sarif.Region) : Decidable region.IsValid :=
  inferInstanceAs (Decidable (_ ∧ _))

theorem Finding.IsAt.isValid_region_iff {finding : Finding} {file : Path} {node : Node}
    (hAt : finding.IsAt file node) :
    (Sarif.Result.ofFinding finding).region.IsValid ↔ node.span.IsOneIndexed := by
  simp only [Sarif.Result.ofFinding, Sarif.Region.IsValid, Span.IsOneIndexed, hAt.line, hAt.column]

def SnapshotNode.IsReported (n : SnapshotNode) (config : Config) (snapshot : Snapshot) : Prop :=
  ∃ id severity, config.severity? id .warning = some severity ∧
    Flagged config.semantics snapshot n id

namespace Engine.Configured

variable {engine : Engine} {config : Config} {ctx : Context}

theorem isAt_of_report? (hEngine : engine.Configured config Catalogue.rules) {node : Node}
    {finding : Finding} (hReport : engine.report? ctx node = some finding) :
    finding.IsAt ctx.file node := by
  obtain ⟨rule, hRule, -, severity, reported, -, hReported, rfl⟩ :=
    hEngine.report?_eq_some_iff.1 hReport
  obtain ⟨-, hAt⟩ := Catalogue.report?_isAt hRule hReported
  exact ⟨hAt.file, hAt.line, hAt.column, hAt.endLine, hAt.endColumn⟩

theorem exists_report?_iff (hEngine : engine.Configured config Catalogue.rules)
    {snapshot : Snapshot} (hCtx : ctx.Shows snapshot) (hTable : ctx.table = engine.table)
    (hFacade : ctx.facade = engine.facade) {n : SnapshotNode} (hn : n ∈ snapshot.nodes) :
    (∃ finding, engine.report? ctx n.node = some finding) ↔ n.IsReported config snapshot := by
  have hNames : ctx.table.names = config.semantics.capabilities := hTable ▸ hEngine.names
  have hTrimmed : ctx.facade = Text.trim config.semantics.facade := hFacade.trans hEngine.facade
  constructor
  · rintro ⟨finding, hFinding⟩
    obtain ⟨rule, hRule, hKind, severity, reported, hSeverity, hReported, -⟩ :=
      hEngine.report?_eq_some_iff.1 hFinding
    have hFlagged := (Catalogue.reports_iff hCtx hNames hTrimmed hn).1
      ⟨rule, hRule, rfl, hKind, reported, hReported⟩
    exact ⟨rule.id, severity, hSeverity, hFlagged⟩
  · rintro ⟨id, severity, hSeverity, hFlagged⟩
    obtain ⟨rule, hRule, rfl, hKind, reported, hReported⟩ :=
      (Catalogue.reports_iff hCtx hNames hTrimmed hn).2 hFlagged
    exact ⟨_, hEngine.report?_eq_some_iff.2
      ⟨rule, hRule, hKind, severity, reported, hSeverity, hReported, rfl⟩⟩

end Engine.Configured

/-- The regions of a log are valid exactly if the spans of the reported nodes are counted from
one. -/
theorem sarif_regions_valid_iff {snapshot : Snapshot} {config : Config} {engine : Engine}
    {arena : Arena} {model : Model} (hLoad : snapshot.load = .ok (arena, model))
    (hEngine : (Engine.ofConfig config).value = .ok engine) :
    ∃ findings, (engine.analyze arena model fun _ => false).findings = some findings ∧
      ((∀ result ∈ (Sarif.Log.ofFindings findings).results, result.region.IsValid) ↔
        ∀ n ∈ snapshot.nodes, n.IsReported config snapshot → n.node.span.IsOneIndexed) := by
  have hConfigured : engine.Configured config Catalogue.rules := .of_ofRules hEngine
  obtain ⟨hFile, hNodes, hModel⟩ := Snapshot.load_eq_ok_iff.1 hLoad
  have hCtx : (engine.context arena model).Shows snapshot :=
    ⟨.of_load hLoad, hFile, hNodes, hModel⟩
  have hReported := fun n (hn : n ∈ snapshot.nodes) =>
    hConfigured.exists_report?_iff hCtx rfl rfl hn
  refine ⟨_, hConfigured.findings_analyze_builtin arena model, ?_⟩
  simp only [Sarif.Log.ofFindings, List.forall_mem_map, List.mem_filterMap, hNodes]
  constructor
  · intro hValid n hn hApplies
    obtain ⟨finding, hFinding⟩ := (hReported n hn).2 hApplies
    rw [← (hConfigured.isAt_of_report? hFinding).isValid_region_iff]
    exact hValid finding ⟨n.node, List.mem_map_of_mem hn, hFinding⟩
  · rintro hSpans finding ⟨node, hNode, hFinding⟩
    obtain ⟨n, hn, rfl⟩ := List.mem_map.1 hNode
    rw [(hConfigured.isAt_of_report? hFinding).isValid_region_iff]
    exact hSpans n hn ((hReported n hn).1 ⟨finding, hFinding⟩)

def fieldAt (span : Span) : Snapshot where
  file := ⟨"src/Cart.cs"⟩
  nodes := [
    { node := { id := ⟨1⟩, span, shape := .fieldDeclaration "items" }
      symbol := some (.typed .field "items" (.array (.named "Shop.Item"))) }]

theorem sarif_regions_valid_iff_placed :
    ∃ arena model engine findings,
      (fieldAt { line := 3, column := 5 }).load = .ok (arena, model) ∧
      (Engine.ofConfig {}).value = .ok engine ∧
      (engine.analyze arena model fun _ => false).findings = some findings ∧
      findings.map Finding.rule = [⟨2⟩] ∧
      ∀ result ∈ (Sarif.Log.ofFindings findings).results, result.region.IsValid := by
  obtain ⟨arena, model, engine, hLoad, hEngine, hRules⟩ : ∃ arena model engine,
      (fieldAt { line := 3, column := 5 }).load = .ok (arena, model) ∧
      (Engine.ofConfig {}).value = .ok engine ∧
      (engine.analyze arena model fun _ => false).findings.map (List.map Finding.rule) =
        some [⟨2⟩] :=
    ⟨_, _, _, rfl, rfl, by decide +kernel⟩
  obtain ⟨findings, hFindings, hRegions⟩ := sarif_regions_valid_iff hLoad hEngine
  rw [hFindings, Option.map_some, Option.some_inj] at hRules
  refine ⟨arena, model, engine, findings, hLoad, hEngine, hFindings, hRules, hRegions.2 ?_⟩
  intro n hn _
  rw [List.mem_singleton.1 hn]
  exact ⟨by decide, by decide⟩

def unplacedField : Json.Value :=
  .record [("file", .text "src/Cart.cs"), ("nodes", .array [.record [
    ("id", .nat 1), ("kind", .text "field_declaration"), ("name", .text "items"),
    ("symbol", .record [("kind", .text "field"), ("name", .text "items"),
      ("type", .record [("kind", .text "array"),
        ("element", .record [("kind", .text "named"), ("name", .text "Shop.Item")])])])]])]

theorem parse?_unplacedField : Snapshot.parse? unplacedField.compact = some (fieldAt {}) := by
  have hParts : (Snapshot.ofJson? unplacedField).map (fun s => (s.file, s.types.entries, s.nodes)) =
      some ((fieldAt {}).file, [], (fieldAt {}).nodes) := by
    decide +kernel
  obtain ⟨⟨file, ⟨entries, sorted⟩, nodes⟩, hRead, hEq⟩ := Option.map_eq_some_iff.1 hParts
  cases hEq
  rw [Snapshot.parse?, Json.parse?_compact, Option.bind_some]
  exact hRead

/-- A finding at a node without a span has a region that starts in line zero. -/
theorem sarif_region_invalid_unplaced :
    ∃ snapshot arena model engine findings, Snapshot.parse? unplacedField.compact = some snapshot ∧
      snapshot.load = .ok (arena, model) ∧ (Engine.ofConfig {}).value = .ok engine ∧
      (engine.analyze arena model fun _ => false).findings = some findings ∧
      (Sarif.Log.ofFindings findings).results.map Sarif.Result.region = [⟨0, 0, none, none⟩] ∧
      ¬∀ result ∈ (Sarif.Log.ofFindings findings).results, result.region.IsValid := by
  obtain ⟨arena, model, engine, findings, hLoad, hEngine, hFindings, hRegions⟩ :
      ∃ arena model engine findings, (fieldAt {}).load = .ok (arena, model) ∧
        (Engine.ofConfig {}).value = .ok engine ∧
        (engine.analyze arena model fun _ => false).findings = some findings ∧
        (Sarif.Log.ofFindings findings).results.map Sarif.Result.region = [⟨0, 0, none, none⟩] :=
    ⟨_, _, _, _, rfl, rfl, rfl, by decide +kernel⟩
  refine ⟨_, arena, model, engine, findings, parse?_unplacedField, hLoad, hEngine, hFindings,
    hRegions, fun hValid => ?_⟩
  have hRegion : Sarif.Region.IsValid ⟨0, 0, none, none⟩ := by
    obtain ⟨result, hResult, hEq⟩ := List.mem_map.1 (hRegions ▸ List.mem_singleton_self _)
    exact hEq ▸ hValid result hResult
  exact absurd hRegion (by decide)

end CostlyCalls
