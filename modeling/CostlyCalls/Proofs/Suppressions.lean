import Mathlib.Data.List.Basic
import CostlyCalls.Proofs.Visits
import CostlyCalls.Suppression.FromToml

/-!
# Suppressions as a filter

A run with suppressions finds what the run without them finds, less the findings that some written
entry covers. `Suppression.Raw.Covers` says this of an entry as it is written: no reference is made
to checked suppressions. Entries that do not name a built-in rule cover nothing and are warned
about, one warning for each in the order of the entries.

Suppressions have no part in whether a run is stopped, so the statement holds for every rule and
every answer of the host, stopped runs included.
-/

set_option autoImplicit false

namespace CostlyCalls

theorem Catalogue.isNamed_eq_true_iff {text : String} :
    Catalogue.isNamed text = true ↔
      ∃ id ∈ RuleId.parse? text, id ∈ Catalogue.rules.map Rule.id := by
  simp only [isNamed, named?, find?, Option.isSome_bind, Option.any_eq_true, Option.mem_def,
    List.find?_isSome, beq_iff_eq, List.mem_map]

namespace Suppression

namespace Raw

def IsEffective (raw : Raw) : Prop :=
  ∃ id ∈ RuleId.parse? raw.rule, id ∈ Catalogue.rules.map Rule.id

instance (raw : Raw) : Decidable raw.IsEffective :=
  Option.decidableExistsMem (RuleId.parse? raw.rule)

/-- The entry covers a finding: it names the rule of the finding, which is a built-in one; its file,
if it has one, ends the path of the finding; and its line, if it has one, is that of the finding. -/
structure Covers (raw : Raw) (finding : Finding) : Prop where
  rule : RuleId.parse? raw.rule = some finding.rule
  builtin : finding.rule ∈ Catalogue.rules.map Rule.id
  file : ∀ file ∈ raw.file, file.components <:+ finding.file.components
  line : ∀ line ∈ raw.line, line = finding.line

theorem covers_iff {raw : Raw} {finding : Finding} :
    raw.Covers finding ↔ RuleId.parse? raw.rule = some finding.rule ∧
      finding.rule ∈ Catalogue.rules.map Rule.id ∧
      (∀ file ∈ raw.file, file.components <:+ finding.file.components) ∧
      ∀ line ∈ raw.line, line = finding.line :=
  ⟨fun ⟨hRule, hBuiltin, hFile, hLine⟩ => ⟨hRule, hBuiltin, hFile, hLine⟩,
    fun ⟨hRule, hBuiltin, hFile, hLine⟩ => ⟨hRule, hBuiltin, hFile, hLine⟩⟩

instance (raw : Raw) (finding : Finding) : Decidable (raw.Covers finding) :=
  -- Only the line of the entry is looked at; a search over all line numbers would not end.
  letI : Decidable (∀ line ∈ raw.line, line = finding.line) := Option.decidableForallMem _
  decidable_of_iff _ covers_iff.symm

theorem Covers.isEffective {raw : Raw} {finding : Finding} (hCovers : raw.Covers finding) :
    raw.IsEffective :=
  ⟨finding.rule, hCovers.rule, hCovers.builtin⟩

def warning (origin : Path) (raw : Raw) : Event :=
  match RuleId.parse raw.rule with
  | .error fault => .malformedSuppressed fault origin
  | .ok _ => .unknownSuppressed raw.rule origin

theorem level_warning (origin : Path) (raw : Raw) : (raw.warning origin).level = .warn := by
  unfold warning
  split <;> rfl

theorem check_of_effective {raw : Raw} {id : RuleId} (hId : id ∈ RuleId.parse? raw.rule)
    (hBuiltin : id ∈ Catalogue.rules.map Rule.id) (origin : Path) :
    (raw.check origin).value = some ⟨id, raw.file, raw.line, raw.justification⟩ ∧
      ∀ event ∈ (raw.check origin).log, event.level = .debug := by
  have hNamed : Catalogue.isNamed raw.rule = true :=
    Catalogue.isNamed_eq_true_iff.2 ⟨id, hId, hBuiltin⟩
  unfold RuleId.parse? at hId
  unfold check
  cases hParse : RuleId.parse raw.rule with
  | error fault =>
    rw [hParse] at hId
    cases hId
  | ok other =>
    rw [hParse] at hId
    cases hId
    simp only [if_pos hNamed, true_and]
    intro event hEvent
    by_cases hUnjustified : raw.isUnjustified = true
    · rw [if_pos hUnjustified, List.mem_singleton] at hEvent
      rw [hEvent]
      rfl
    · simp [hUnjustified] at hEvent

theorem check_of_not_effective {raw : Raw} (hEffective : ¬raw.IsEffective) (origin : Path) :
    raw.check origin = ⟨none, [raw.warning origin]⟩ := by
  have hNamed : ¬Catalogue.isNamed raw.rule = true := mt Catalogue.isNamed_eq_true_iff.1 hEffective
  unfold check warning
  cases RuleId.parse raw.rule with
  | error fault => rfl
  | ok id => exact if_neg hNamed

end Raw

theorem covers_eq_true_iff {entry : Suppression} {finding : Finding} :
    entry.covers finding = true ↔ entry.rule = finding.rule ∧
      (∀ file ∈ entry.file, file.components <:+ finding.file.components) ∧
      ∀ line ∈ entry.line, line = finding.line := by
  simp only [covers, Bool.and_eq_true, beq_iff_eq, Option.all_eq_true, Path.endsWith,
    List.isSuffixOf_iff_suffix, Option.mem_def, and_assoc]

theorem Raw.exists_check_covers_iff {origin : Path} {raw : Raw} {finding : Finding} :
    (∃ entry, (raw.check origin).value = some entry ∧ entry.covers finding = true) ↔
      raw.Covers finding := by
  by_cases hEffective : raw.IsEffective
  · obtain ⟨id, hId, hBuiltin⟩ := hEffective
    obtain ⟨hValue, -⟩ := check_of_effective hId hBuiltin origin
    simp only [hValue, Option.some_inj, exists_eq_left', covers_eq_true_iff]
    constructor
    · rintro ⟨rfl, hFile, hLine⟩
      exact ⟨hId, hBuiltin, hFile, hLine⟩
    · rintro ⟨hRule, -, hFile, hLine⟩
      exact ⟨Option.some_inj.1 (hId.symm.trans hRule), hFile, hLine⟩
  · rw [check_of_not_effective hEffective origin]
    refine iff_of_false ?_ (mt Covers.isEffective hEffective)
    rintro ⟨entry, hValue, -⟩
    cases hValue

theorem hides_ofRaws_eq_true_iff {origin : Path} {raws : List Raw} {finding : Finding} :
    hides (ofRaws origin raws).value finding = true ↔ ∃ raw ∈ raws, raw.Covers finding := by
  simp only [hides, ofRaws, List.any_eq_true, List.mem_filterMap]
  constructor
  · rintro ⟨entry, ⟨raw, hRaw, hValue⟩, hCovers⟩
    exact ⟨raw, hRaw, Raw.exists_check_covers_iff.1 ⟨entry, hValue, hCovers⟩⟩
  · rintro ⟨raw, hRaw, hCovers⟩
    obtain ⟨entry, hValue, hCovers⟩ := Raw.exists_check_covers_iff.2 hCovers
    exact ⟨entry, ⟨raw, hRaw, hValue⟩, hCovers⟩

theorem Raw.warnings_check (origin : Path) (raw : Raw) :
    ((raw.check origin).log.filter fun e => e.level = .warn) =
      if raw.IsEffective then [] else [raw.warning origin] := by
  by_cases hEffective : raw.IsEffective
  · rw [if_pos hEffective, List.filter_eq_nil_iff]
    obtain ⟨id, hId, hBuiltin⟩ := hEffective
    obtain ⟨-, hLevels⟩ := check_of_effective hId hBuiltin origin
    intro event hEvent
    simp [hLevels event hEvent]
  · rw [if_neg hEffective, check_of_not_effective hEffective]
    simp [level_warning]

theorem warnings_ofRaws (origin : Path) (raws : List Raw) :
    ((ofRaws origin raws).log.filter fun e => e.level = .warn) =
      (raws.filter fun raw => ¬raw.IsEffective).map (Raw.warning origin) := by
  rw [ofRaws, List.filter_flatMap]
  induction raws with
  | nil => rfl
  | cons raw rest ih =>
    rw [List.flatMap_cons, ih, Raw.warnings_check]
    by_cases hEffective : raw.IsEffective
    · simp [hEffective]
    · simp [hEffective]

end Suppression

namespace Engine

theorem finding?_withSuppressions (engine : Engine) (entries : List Suppression) (ctx : Context)
    (node : Node) (rule : Rule) :
    (engine.withSuppressions entries).finding? ctx node rule =
      ((engine.withSuppressions []).finding? ctx node rule).filter
        fun f => !Suppression.hides entries f := by
  apply Option.ext
  intro finding
  simp only [Option.filter_eq_some_iff, finding?_eq_some_iff, Bool.not_eq_true']
  constructor
  · rintro ⟨severity, reported, hSeverity, hReport, rfl, hShown⟩
    exact ⟨⟨severity, reported, hSeverity, hReport, rfl, rfl⟩, hShown⟩
  · rintro ⟨⟨severity, reported, hSeverity, hReport, rfl, -⟩, hShown⟩
    exact ⟨severity, reported, hSeverity, hReport, rfl, hShown⟩

theorem findings_visit_withSuppressions (engine : Engine) (entries : List Suppression)
    (ctx : Context) (node : Node) :
    ((engine.withSuppressions entries).visit ctx node).findings =
      ((engine.withSuppressions []).visit ctx node).findings.filter
        fun f => !Suppression.hides entries f := by
  rw [findings_visit, findings_visit, List.filter_filterMap]
  apply List.filterMap_congr
  intro rule _
  exact engine.finding?_withSuppressions entries ctx node rule

theorem stops_visit_withSuppressions (engine : Engine) (entries : List Suppression)
    (ctx : Context) (node : Node) :
    ((engine.withSuppressions entries).visit ctx node).stops = (engine.visit ctx node).stops := by
  rw [stops_visit, stops_visit]
  rfl

/-- A run with suppressions goes as far as the run without, and finds the same less what the
suppressions hide. -/
theorem findings_walk_withSuppressions (engine : Engine) (entries : List Suppression)
    (ctx : Context) (halt : Nat → Bool) (i : Nat) (stopped : Bool) (nodes : List Node) :
    ((engine.withSuppressions entries).walk ctx halt i stopped nodes).findings =
      ((engine.withSuppressions []).walk ctx halt i stopped nodes).findings.map
        (List.filter fun f => !Suppression.hides entries f) := by
  induction nodes generalizing i stopped with
  | nil => rfl
  | cons node rest ih =>
    -- Hidden or not, a rule that reports has run, so the same rules can ask for a stop.
    have hStops : ((engine.withSuppressions entries).visit ctx node).stops =
        ((engine.withSuppressions []).visit ctx node).stops := by
      rw [stops_visit_withSuppressions, stops_visit_withSuppressions]
    rw [walk, walk]
    by_cases hHalt : (stopped || halt i) = true
    · rw [if_pos hHalt, if_pos hHalt]
      rfl
    · rw [if_neg hHalt, if_neg hHalt]
      rw [Run.after, Run.after, hStops, ih, findings_visit_withSuppressions]
      simp only [Option.map_map, Function.comp_def, List.filter_append]

theorem exists_findings_walk (engine : Engine) (ctx : Context) (halt : Nat → Bool) (i : Nat)
    (stopped : Bool) (nodes : List Node)
    (hRun : (engine.walk ctx halt i stopped nodes).stopped = false) :
    ∃ found, (engine.walk ctx halt i stopped nodes).findings = some found := by
  induction nodes generalizing i stopped with
  | nil => exact ⟨[], rfl⟩
  | cons node rest ih =>
    rw [walk] at hRun ⊢
    by_cases hHalt : (stopped || halt i) = true
    · rw [if_pos hHalt] at hRun
      cases hRun
    · rw [if_neg hHalt] at hRun ⊢
      obtain ⟨found, hFound⟩ := ih (i + 1) (engine.visit ctx node).stops hRun
      exact ⟨(engine.visit ctx node).findings ++ found, by simp [Run.after, hFound]⟩

/-- What a run under suppressions finds; absent if the run was stopped. -/
def findingsUnder (engine : Engine) (entries : List Suppression) (arena : Arena) (model : Model)
    (halt : Nat → Bool) : Option (List Finding) :=
  ((engine.withSuppressions entries).analyze arena model halt).findings

theorem findingsUnder_ofRaws (engine : Engine) (origin : Path) (raws : List Suppression.Raw)
    (arena : Arena) (model : Model) (halt : Nat → Bool) :
    engine.findingsUnder (Suppression.ofRaws origin raws).value arena model halt =
      (engine.findingsUnder [] arena model halt).map
        (List.filter fun f => ¬∃ raw ∈ raws, raw.Covers f) := by
  have hCovered : (fun f => decide (¬∃ raw ∈ raws, raw.Covers f)) =
      fun f => !Suppression.hides (Suppression.ofRaws origin raws).value f := by
    funext f
    rw [Bool.eq_iff_iff, decide_eq_true_iff, Bool.not_eq_true', ← Bool.not_eq_true,
      Suppression.hides_ofRaws_eq_true_iff]
  rw [hCovered]
  exact engine.findings_walk_withSuppressions _ _ halt 0 false arena.nodes

theorem findingsUnder_ofRaws_congr (engine : Engine) (origin elsewhere : Path)
    {raws other : List Suppression.Raw}
    (hSame : ∀ raw : Suppression.Raw, raw.IsEffective → (raw ∈ other ↔ raw ∈ raws))
    (arena : Arena) (model : Model) (halt : Nat → Bool) :
    engine.findingsUnder (Suppression.ofRaws elsewhere other).value arena model halt =
      engine.findingsUnder (Suppression.ofRaws origin raws).value arena model halt := by
  have hCovered : ∀ f, (∃ raw ∈ other, raw.Covers f) ↔ ∃ raw ∈ raws, raw.Covers f := by
    intro f
    constructor
    · rintro ⟨raw, hRaw, hCovers⟩
      exact ⟨raw, (hSame raw hCovers.isEffective).1 hRaw, hCovers⟩
    · rintro ⟨raw, hRaw, hCovers⟩
      exact ⟨raw, (hSame raw hCovers.isEffective).2 hRaw, hCovers⟩
  rw [findingsUnder_ofRaws, findingsUnder_ofRaws]
  simp only [hCovered]

theorem findingsUnder_ofRaws_append (engine : Engine) (origin : Path)
    (raws other : List Suppression.Raw) (arena : Arena) (model : Model) (halt : Nat → Bool) :
    engine.findingsUnder (Suppression.ofRaws origin (raws ++ other)).value arena model halt =
      (engine.findingsUnder (Suppression.ofRaws origin raws).value arena model halt).map
        (List.filter fun f => ¬∃ raw ∈ other, raw.Covers f) := by
  rw [findingsUnder_ofRaws, findingsUnder_ofRaws, Option.map_map]
  congr
  funext findings
  rw [Function.comp_apply, List.filter_filter]
  congr
  funext f
  rw [← Bool.decide_and]
  apply decide_eq_decide.2
  rw [← not_or, not_iff_not]
  simp only [List.mem_append, or_and_right, exists_or]
  exact or_comm

end Engine

/-- A document of suppressions takes away what its entries cover, and warns about the entries that
name no built-in rule. -/
theorem analyze_hides_covered (engine : Engine) {text : String} (origin : Path)
    {raws : List Suppression.Raw} (hRaws : Suppression.parseRaws? text = some raws) :
    ∃ entries, (Suppression.parse text origin).value = .ok entries ∧
      ((Suppression.parse text origin).log.filter fun e => e.level = .warn) =
        (raws.filter fun raw => ¬raw.IsEffective).map (Suppression.Raw.warning origin) ∧
      ∀ arena model halt,
        (((engine.withSuppressions []).analyze arena model halt).stopped = false →
          ∃ found, engine.findingsUnder [] arena model halt = some found) ∧
        engine.findingsUnder entries arena model halt =
          (engine.findingsUnder [] arena model halt).map
            (List.filter fun f => ¬∃ raw ∈ raws, raw.Covers f) ∧
        (∀ elsewhere (other : List Suppression.Raw),
          (∀ raw : Suppression.Raw, raw.IsEffective → (raw ∈ other ↔ raw ∈ raws)) →
          engine.findingsUnder (Suppression.ofRaws elsewhere other).value arena model halt =
            engine.findingsUnder entries arena model halt) ∧
        ∀ other : List Suppression.Raw,
          engine.findingsUnder (Suppression.ofRaws origin (raws ++ other)).value arena model halt =
            (engine.findingsUnder entries arena model halt).map
              (List.filter fun f => ¬∃ raw ∈ other, raw.Covers f) := by
  have hParse : Suppression.parse text origin = (Suppression.ofRaws origin raws).map .ok := by
    simp only [Suppression.parse, hRaws]
  refine ⟨(Suppression.ofRaws origin raws).value, by rw [hParse]; rfl, ?_, ?_⟩
  · rw [hParse]
    exact Suppression.warnings_ofRaws origin raws
  · intro arena model halt
    exact ⟨Engine.exists_findings_walk _ _ halt 0 false arena.nodes,
      engine.findingsUnder_ofRaws origin raws arena model halt,
      fun elsewhere other hSame =>
        engine.findingsUnder_ofRaws_congr origin elsewhere hSame arena model halt,
      fun other => engine.findingsUnder_ofRaws_append origin raws other arena model halt⟩

def legacyText : String :=
  "[[suppress]]\nrule = \"col0002\"\nfile = \"Legacy.cs\"\nline = 3\n"
    ++ "[[suppress]]\nrule = \"COL0999\"\n"

def legacyRaws : List Suppression.Raw :=
  [{ rule := "col0002", file := some ⟨"Legacy.cs"⟩, line := some 3 }, { rule := "COL0999" }]

def legacyArena : Arena where
  file := ⟨"src/Legacy.cs"⟩
  nodes := [{ id := ⟨1⟩, span := { line := 3, column := 5 }, shape := .fieldDeclaration "codes" },
    { id := ⟨2⟩, span := { line := 9, column := 5 }, shape := .fieldDeclaration "names" }]
  index := _
  built := rfl
  resolved := rfl

def legacyModel : Model where
  symbol? _ := some (.typed .field "codes" (.array (.named "System.String")))
  type? _ := none
  interfaces _ := []

theorem analyze_hides_covered_legacy :
    ∃ engine entries, (Engine.ofConfig {}).value = .ok engine ∧
      (Suppression.parse legacyText ⟨"s.toml"⟩).value = .ok entries ∧
      ((Suppression.parse legacyText ⟨"s.toml"⟩).log.filter fun e => e.level = .warn) =
        [.unknownSuppressed "COL0999" ⟨"s.toml"⟩] ∧
      (engine.findingsUnder [] legacyArena legacyModel fun _ => false).map
        (List.map Finding.line) = some [3, 9] ∧
      (engine.findingsUnder entries legacyArena legacyModel fun _ => false).map
        (List.map Finding.line) = some [9] := by
  have hRaws : Suppression.parseRaws? legacyText = some legacyRaws := by decide +kernel
  obtain ⟨engine, hEngine, hAll, hLeft⟩ : ∃ engine, (Engine.ofConfig {}).value = .ok engine ∧
      (engine.findingsUnder [] legacyArena legacyModel fun _ => false).map
        (List.map Finding.line) = some [3, 9] ∧
      ((engine.findingsUnder [] legacyArena legacyModel fun _ => false).map
        (List.filter fun f => ¬∃ raw ∈ legacyRaws, raw.Covers f)).map
          (List.map Finding.line) = some [9] :=
    ⟨_, rfl, by decide +kernel, by decide +kernel⟩
  obtain ⟨entries, hEntries, hWarnings, hRuns⟩ :=
    analyze_hides_covered engine ⟨"s.toml"⟩ hRaws
  obtain ⟨-, hFindings, -⟩ := hRuns legacyArena legacyModel fun _ => false
  refine ⟨engine, entries, hEngine, hEntries, hWarnings.trans ?_, hAll, ?_⟩
  · decide +kernel
  · rw [hFindings]
    exact hLeft

end CostlyCalls
