import CostlyCalls.Proofs.Cancellation
import CostlyCalls.Proofs.RuleFilter
import CostlyCalls.Proofs.Selection

/-!
# What a check prints and how it ends

A check that can be prepared prints one report and then succeeds or fails. The report shows the
findings of the engine from the least severity on; whether the check fails is a matter of the shown
findings from the threshold on, and so of the greater of the two severities. The threshold has no
part in the report, and a filter no other part than the set of the rules that it names.
-/

set_option autoImplicit false

namespace CostlyCalls

namespace Severity

instance : Max Severity := maxOfLe

theorem rank_max (s t : Severity) : (max s t).rank = max s.rank t.rank := by
  cases s <;> cases t <;> rfl

theorem max_le_iff {s t u : Severity} : max s t ≤ u ↔ s ≤ u ∧ t ≤ u := by
  rw [le_iff_rank_le, le_iff_rank_le, le_iff_rank_le, rank_max]
  omega

end Severity

theorem Report.Format.ofName?_eq_some_iff {text : String} {format : Report.Format} :
    Report.Format.ofName? text = some format ↔ format.name = text := by
  constructor
  · intro hFormat
    simpa using List.find?_some hFormat
  · rintro rfl
    cases format <;> rfl

namespace Engine

theorem Configured.wellBehaved {engine : Engine} {config : Config}
    (hEngine : engine.Configured config Catalogue.rules) : engine.registry.WellBehaved := by
  apply Registry.WellBehaved.of_isStandard
  intro rule hRule
  rw [hEngine.rules] at hRule
  exact Catalogue.isStandard hRule

theorem Configured.severity?_of_allow {engine : Engine} {config : Config} {rules : List Rule}
    (hEngine : engine.Configured config rules) {id : RuleId}
    (hAllow : config.setting? id = some .allow) : engine.severity? id = none := by
  rw [hEngine.severity?]
  cases hGet : engine.registry.get? id with
  | none => rfl
  | some rule =>
    obtain ⟨-, rfl⟩ := Registry.get?_eq_some_iff.1 hGet
    simp only [Option.bind_some, Config.severity?, hAllow, Setting.severity?]

end Engine

namespace Project

theorem alone_eq {engine : Engine} (hEngine : engine.NeverStops) (tree : FileTree) (path : Path) :
    alone engine tree path =
      match loadSnapshot tree path with
      | .error _ => []
      | .ok (arena, model) => engine.complete arena model := by
  cases hLoad : loadSnapshot tree path with
  | error error =>
    apply alone_of_not_loads
    rw [loads, hLoad]
    rfl
  | ok parts =>
    rw [alone, value_analyzeFile_never hEngine hLoad]
    simp only [findingsOf, Engine.findings_visit, Engine.complete]

theorem value_analyze_never {engine : Engine} (hEngine : engine.NeverStops) (tree : FileTree)
    (root : Path) :
    (analyze engine tree root fun _ _ => false).value =
      .ok (complete engine tree (Discovery.discover tree root .secure).value) := by
  rcases value_analyzeFiles_cases hEngine tree (fun _ _ => false)
    (Discovery.discover tree root .secure).value with ⟨⟨_, _, _, _, _, hYes⟩, -⟩ | ⟨-, hValue⟩
  · cases hYes
  · exact hValue

theorem exists_load_of_mem_complete {engine : Engine} (hEngine : engine.NeverStops)
    {tree : FileTree} {files : List Path} {finding : Finding}
    (hFinding : finding ∈ complete engine tree files) :
    ∃ arena model, finding ∈ engine.complete arena model := by
  rw [complete_eq_flatMap, List.mem_flatMap] at hFinding
  obtain ⟨path, -, hAlone⟩ := hFinding
  rw [alone_eq hEngine] at hAlone
  split at hAlone
  · cases hAlone
  · next arena model _ => exact ⟨arena, model, hAlone⟩

theorem complete_eq_filter {a b : Engine} (hSame : a.SameChecks b)
    (hRules : a.registry.WellBehaved) (keep : RuleId → Bool)
    (hSeverity : ∀ id, b.severity? id = if keep id then a.severity? id else none)
    (tree : FileTree) (files : List Path) :
    complete b tree files = (complete a tree files).filter fun f => keep f.rule := by
  have hOther : b.NeverStops := by
    unfold Engine.NeverStops
    rw [← hSame.registry]
    exact hRules.neverStops
  simp only [complete_eq_flatMap, List.filter_flatMap]
  apply List.flatMap_congr
  intro path _
  rw [alone_eq hOther, alone_eq hRules.neverStops]
  cases loadSnapshot tree path with
  | error error => rfl
  | ok parts => exact hSame.complete_eq_filter hRules keep hSeverity parts.1 parts.2

end Project

namespace CommandLine

/-- The format of a report: the one asked for, else the configured one, else that of the console. -/
inductive Chooses (options : Options) (config : Config) : Report.Format → Prop
  | asked {format : Report.Format} (hAsked : options.format = some format) :
    Chooses options config format
  | configured {format : Report.Format} (hAsked : options.format = none)
    (hName : format.name = config.output.format) : Chooses options config format
  | fallback (hAsked : options.format = none)
    (hName : ∀ format : Report.Format, format.name ≠ config.output.format) :
    Chooses options config .console

/-- How many findings count against a threshold: those of the greater of the two severities on. -/
def failing (least threshold : Severity) (findings : List Finding) : Nat :=
  findings.countP fun f => max least threshold ≤ f.severity

/-- What is printed in a format. A line end stands behind the reports for machines. -/
inductive Prints (colour : Bool) (findings : List Finding) : Report.Format → String → Prop
  | console : Prints colour findings .console (Report.console colour findings)
  | json : Prints colour findings .json (Report.json findings ++ "\n")
  | sarif : Prints colour findings .sarif (Report.sarif findings ++ "\n")

/-- The outcome of a check that has come to these findings. -/
structure Outcome.Reports (outcome : Outcome) (terminal : Bool) (options : Options)
    (config : Config) (findings : List Finding) : Prop where
  output : ∃ format, Chooses options config format ∧
    Prints (usesColour config terminal)
      (findings.filter fun f => options.minSeverity ≤ f.severity) format outcome.output
  failure : ∀ failure, outcome.failure = some failure ↔
    ∃ s ∈ options.failOn, 0 < failing options.minSeverity s findings ∧
      failure = .findings (failing options.minSeverity s findings) s
  message : ∀ failure ∈ outcome.failure, ∃ s ∈ options.failOn,
    failure.message = "Found " ++ (failing options.minSeverity s findings).repr
      ++ " finding(s) at or above " ++ s.name ++ " severity"

theorem chooses_iff {options : Options} {config : Config} {format : Report.Format} :
    Chooses options config format ↔ format = (chooseFormat options config).value := by
  unfold chooseFormat
  constructor
  · rintro (hAsked | ⟨hAsked, hName⟩ | ⟨hAsked, hName⟩)
    · rw [hAsked]
    · rw [hAsked, Report.Format.ofName?_eq_some_iff.2 hName]
    · have hNone : Report.Format.ofName? config.output.format = none := by
        rw [Option.eq_none_iff_forall_ne_some]
        intro other hOther
        exact hName other (Report.Format.ofName?_eq_some_iff.1 hOther)
      rw [hAsked, hNone]
  · rintro rfl
    split
    · next format hAsked => exact .asked hAsked
    · next hAsked =>
      split
      · next format hName => exact .configured hAsked (Report.Format.ofName?_eq_some_iff.1 hName)
      · next hNone =>
        refine .fallback hAsked ?_
        intro format hName
        rw [Report.Format.ofName?_eq_some_iff.2 hName] at hNone
        cases hNone

theorem prints_iff {format : Report.Format} {colour : Bool} {findings : List Finding}
    {text : String} :
    Prints colour findings format text ↔ text = Report.print format colour findings := by
  constructor
  · rintro (_ | _ | _) <;> rfl
  · rintro rfl
    cases format with
    | console => exact .console
    | json => exact .json
    | sarif => exact .sarif

theorem countP_shown (least threshold : Severity) (findings : List Finding) :
    (findings.filter fun f => least ≤ f.severity).countP (fun f => threshold ≤ f.severity) =
      failing least threshold findings := by
  rw [List.countP_filter, failing]
  apply List.countP_congr
  intro f _
  simp only [Bool.and_eq_true, decide_eq_true_eq, Severity.max_le_iff]
  exact and_comm

theorem failureOf_eq_some_iff {failOn : Option Severity} {findings : List Finding}
    {failure : Failure} :
    failureOf failOn findings = some failure ↔ ∃ s ∈ failOn,
      0 < findings.countP (fun f => s ≤ f.severity) ∧
        failure = .findings (findings.countP fun f => s ≤ f.severity) s := by
  cases failOn with
  | none => simp [failureOf]
  | some s =>
    simp only [failureOf, Option.ite_none_left_eq_some, Option.some_inj, Option.mem_def,
      exists_eq_left', Nat.pos_iff_ne_zero]
    exact and_congr_right fun _ => eq_comm

theorem reports_report (files : FileTree) (terminal : Bool) (options : Options) (config : Config)
    (findings : List Finding) (log : List Event) :
    ((report files terminal options config findings).after log).Reports terminal options config
      findings := by
  have hFailure : ∀ failure,
      ((report files terminal options config findings).after log).failure = some failure ↔
        ∃ s ∈ options.failOn, 0 < failing options.minSeverity s findings ∧
          failure = .findings (failing options.minSeverity s findings) s := by
    intro failure
    simp only [report, Outcome.after, failureOf_eq_some_iff, countP_shown]
  refine ⟨⟨_, chooses_iff.2 rfl, prints_iff.2 rfl⟩, hFailure, ?_⟩
  intro failure hSome
  obtain ⟨s, hs, -, rfl⟩ := (hFailure failure).1 hSome
  exact ⟨s, hs, rfl⟩

theorem Outcome.Reports.output_eq {outcome : Outcome} {terminal : Bool} {options : Options}
    {config : Config} {findings : List Finding}
    (hReports : outcome.Reports terminal options config findings) :
    outcome.output = Report.print (chooseFormat options config).value (usesColour config terminal)
      (findings.filter fun f => options.minSeverity ≤ f.severity) := by
  obtain ⟨format, hChooses, hPrints⟩ := hReports.output
  rw [prints_iff.1 hPrints, chooses_iff.1 hChooses]

theorem value_prepare {files : FileTree} {path : Path} {options : Options} {config : Config}
    {suppressions : List Suppression} {engine : Engine}
    (hConfig : (Project.loadConfigFor files path).value = .ok config)
    (hSuppressions : (loadSuppressions files path options).value = .ok suppressions)
    (hEngine : (Engine.ofConfig config).value = .ok engine) :
    (prepare files path options).value =
      (restrict (engine.withSuppressions suppressions) options.rules).map (config, ·) := by
  have hFirst : ((Project.loadConfigFor files path).map (·.mapError Failure.config)).value =
      .ok config := by
    rw [Logged.map, hConfig]
    rfl
  have hSecond : ((loadSuppressions files path options).map (·.mapError Failure.run)).value =
      .ok suppressions := by
    rw [Logged.map, hSuppressions]
    rfl
  have hThird : ((Engine.ofConfig config).map (·.mapError Failure.run)).value = .ok engine := by
    rw [Logged.map, hEngine]
    rfl
  rw [prepare, Logged.andThen_ok _ hFirst, Logged.andThen_ok _ hSecond, Logged.andThen_ok _ hThird]

theorem check_of_refused {files : FileTree} {path : Path} {options : Options} {failure : Failure}
    (hPrepare : (prepare files path options).value = .error failure) (terminal : Bool) :
    (check files terminal path options).failure = some failure ∧
      (check files terminal path options).output = "" := by
  simp only [check, hPrepare, and_self]

theorem reports_check {files : FileTree} {path : Path} {options : Options} {config : Config}
    {engine : Engine} {findings : List Finding}
    (hPrepare : (prepare files path options).value = .ok (config, engine))
    (hFindings : (Project.analyze engine files path fun _ _ => false).value = .ok findings)
    (terminal : Bool) :
    (check files terminal path options).Reports terminal options config findings := by
  simp only [check, hPrepare, hFindings]
  exact reports_report files terminal options config findings _

theorem check_congr_rules {rules other : Option String}
    (hRules : ∀ engine, restrict engine rules = restrict engine other) (files : FileTree)
    (terminal : Bool) (path : Path) (options : Options) :
    check files terminal path { options with rules } =
      check files terminal path { options with rules := other } := by
  have hPrepare : prepare files path { options with rules } =
      prepare files path { options with rules := other } := by
    simp only [prepare, hRules]
    rfl
  unfold check
  rw [hPrepare]
  rfl

theorem output_check_failOn (files : FileTree) (terminal : Bool) (path : Path) (options : Options)
    (failOn : Option Severity) :
    (check files terminal path { options with failOn }).output =
      (check files terminal path options).output := by
  have hPrepare : prepare files path { options with failOn } = prepare files path options := rfl
  cases hValue : (prepare files path options).value with
  | error failure => simp only [check, hPrepare, hValue]
  | ok prepared =>
    cases hFindings : (Project.analyze prepared.2 files path fun _ _ => false).value with
    | error error => simp only [check, hPrepare, hValue, hFindings]
    | ok findings =>
      simp only [check, hPrepare, hValue, hFindings]
      rfl

theorem severity?_keepAdmitted (rules : Option String) (engine : Engine) (id : RuleId) :
    (keepAdmitted rules engine).severity? id =
      if decide (Admits rules id) then engine.severity? id else none :=
  Engine.lookup_filter_keys (fun key => decide (Admits rules key)) engine.enabled id

/-- An accepted filter leaves of the findings those of the rules that it names. A rule that is not
run without the filter is not run with it either. -/
theorem exists_analyze_restricted {engine : Engine} (hRules : engine.registry.WellBehaved)
    {rules : Option String} (hFilter : ∀ text ∈ rules, IsFilter text) (tree : FileTree)
    (root : Path) :
    ∃ used findings unfiltered, restrict engine rules = .ok used ∧
      (Project.analyze used tree root fun _ _ => false).value = .ok findings ∧
      (Project.analyze engine tree root fun _ _ => false).value = .ok unfiltered ∧
      findings = unfiltered.filter (fun f => Admits rules f.rule) ∧
      ∀ id, engine.severity? id = none →
        used.isEnabled id = false ∧ ∀ f ∈ findings, f.rule ≠ id := by
  have hUsed : (keepAdmitted rules engine).registry.WellBehaved := hRules
  refine ⟨_, _, _, restrict_eq_ok hFilter engine,
    Project.value_analyze_never hUsed.neverStops tree root,
    Project.value_analyze_never hRules.neverStops tree root, ?_, ?_⟩
  · have hSame : engine.SameChecks (keepAdmitted rules engine) := ⟨rfl, rfl, rfl, rfl⟩
    apply Project.complete_eq_filter hSame hRules (fun id => Admits rules id)
    exact severity?_keepAdmitted rules engine
  · intro id hNone
    have hOff : (keepAdmitted rules engine).severity? id = none := by
      rw [severity?_keepAdmitted, hNone, ite_self]
    refine ⟨by rw [Engine.isEnabled, hOff]; rfl, ?_⟩
    rintro f hf rfl
    obtain ⟨arena, model, hComplete⟩ := Project.exists_load_of_mem_complete hUsed.neverStops hf
    obtain ⟨rule, -, hId, hSeverity⟩ := Engine.exists_rule_of_mem_complete hComplete hUsed
    rw [hId, hOff] at hSeverity
    cases hSeverity

/-- What a check prints and how it ends: with the findings of the rules that its filter names, or
with the fault of the filter. -/
theorem check_outcome (files : FileTree) (terminal : Bool) (path : Path) (options : Options) :
    (∀ text, ((∃ ids, parseFilter text = .ok ids) ↔ IsFilter text) ∧
      ∀ failure, parseFilter text = .error failure ↔ FirstRefusal text failure) ∧
    (∀ text other, IsFilter text → IsFilter other → (∀ id, Names text id ↔ Names other id) →
      check files terminal path { options with rules := some text } =
        check files terminal path { options with rules := some other }) ∧
    (∀ failOn, (check files terminal path { options with failOn }).output =
      (check files terminal path options).output) ∧
    ∀ config suppressions engine,
      (Project.loadConfigFor files path).value = .ok config →
      (loadSuppressions files path options).value = .ok suppressions →
      (Engine.ofConfig config).value = .ok engine →
      (∀ text ∈ options.rules, ∀ failure, FirstRefusal text failure →
        (check files terminal path options).failure = some failure ∧
          (check files terminal path options).output = "") ∧
      ((∀ text ∈ options.rules, IsFilter text) → ∃ used findings unfiltered,
        restrict (engine.withSuppressions suppressions) options.rules = .ok used ∧
        (Project.analyze used files path fun _ _ => false).value = .ok findings ∧
        (Project.analyze (engine.withSuppressions suppressions) files path
          fun _ _ => false).value = .ok unfiltered ∧
        findings = unfiltered.filter (fun f => Admits options.rules f.rule) ∧
        (∀ id, config.setting? id = some .allow →
          used.isEnabled id = false ∧ ∀ f ∈ findings, f.rule ≠ id) ∧
        (check files terminal path options).Reports terminal options config findings) := by
  refine ⟨fun text => ⟨exists_parseFilter_iff, fun _ => parseFilter_eq_error_iff⟩, ?_,
    output_check_failOn files terminal path options, ?_⟩
  · intro text other hText hOther hNames
    apply check_congr_rules
    intro engine
    have hAdmits : ∀ id, Admits (some text) id ↔ Admits (some other) id := by
      simpa [Admits] using hNames
    rw [restrict_eq_ok (by simpa using hText), restrict_eq_ok (by simpa using hOther)]
    simp only [keepAdmitted, hAdmits]
  · intro config suppressions engine hConfig hSuppressions hEngine
    have hPrepare := value_prepare hConfig hSuppressions hEngine
    constructor
    · intro text hText failure hRefusal
      apply check_of_refused
      rw [hPrepare, Option.mem_def.1 hText, restrict_eq_error hRefusal]
      rfl
    · intro hFilter
      have hConfigured : engine.Configured config Catalogue.rules := .of_ofRules hEngine
      have hBehaved : (engine.withSuppressions suppressions).registry.WellBehaved :=
        hConfigured.wellBehaved
      obtain ⟨used, findings, unfiltered, hUsed, hFindings, hUnfiltered, hFiltered, hDisabled⟩ :=
        exists_analyze_restricted hBehaved hFilter files path
      refine ⟨used, findings, unfiltered, hUsed, hFindings, hUnfiltered, hFiltered, ?_, ?_⟩
      · intro id hAllow
        exact hDisabled id (hConfigured.severity?_of_allow hAllow)
      · apply reports_check _ hFindings
        rw [hPrepare, hUsed]
        rfl

def basketTree : FileTree where
  root := .directory [
    ("collection-lint.toml", .file "[rules]\nCOL0001 = \"allow\"\n".toUTF8),
    ("Basket.semantic.json", .file (
      "[\"B\",\x7b\x7d,[\x7b\"id\":1,\"kind\":\"field_declaration\",\"name\":\"a\","
        ++ "\"symbol\":[\"field\",\"a\",[\"array\",[\"dynamic\"]]]\x7d]]").toUTF8)]

def basketConfig : Config := { rules := [("COL0001", .allow)] }

def basketOptions (format : Option Report.Format) (rules : String) : Options :=
  { format, minSeverity := .warning, failOn := some .info, rules := some rules }

def basketFinding : Finding where
  rule := ⟨2⟩
  severity := .warning
  message := "The 'a' field has an array type; store an IReadOnlyList<T> instead"
  file := ⟨"B"⟩
  line := 0
  column := 0
  endLine := none
  endColumn := none
  suggestion := some "Store an IReadOnlyList<T>"

theorem check_outcome_basket :
    ∃ engine used,
      (Project.loadConfigFor basketTree ⟨"."⟩).value = .ok basketConfig ∧
      (∀ format rules,
        (loadSuppressions basketTree ⟨"."⟩ (basketOptions format rules)).value = .ok []) ∧
      (Engine.ofConfig basketConfig).value = .ok engine ∧
      IsFilter " col0002 ,,COL0001" ∧
      restrict (engine.withSuppressions []) (some " col0002 ,,COL0001") = .ok used ∧
      used.isEnabled ⟨1⟩ = false ∧
      (Project.analyze used basketTree ⟨"."⟩ fun _ _ => false).value = .ok [basketFinding] ∧
      (check basketTree true ⟨"."⟩ (basketOptions none " col0002 ,,COL0001")).output =
        "\x1b[1;33mwarning\x1b[0m\x1b[1m:\x1b[0m The 'a' field has an array type; store an " ++
          "IReadOnlyList<T> instead \x1b[2m[COL0002]\x1b[0m\n  \x1b[34m-->\x1b[0m B:0:0\n" ++
          "  \x1b[36mhelp:\x1b[0m Store an IReadOnlyList<T>\n\n" ++
          "\nFound \x1b[33m1 warning(s)\x1b[0m\n" ∧
      (check basketTree true ⟨"."⟩ (basketOptions (some .json) " col0002 ,,COL0001")).output =
        Report.json [basketFinding] ++ "\n" ∧
      (check basketTree true ⟨"."⟩ (basketOptions (some .sarif) " col0002 ,,COL0001")).output =
        Report.sarif [basketFinding] ++ "\n" ∧
      (check basketTree true ⟨"."⟩ (basketOptions none " col0002 ,,COL0001")).failure =
        some (.findings 1 .info) ∧
      check basketTree true ⟨"."⟩ (basketOptions none " col0002 ,,COL0001") =
        check basketTree true ⟨"."⟩ (basketOptions none "COL0001,Col0002,col0001") ∧
      FirstRefusal "COL0002,COL4242,x" (.unknownRule ⟨4242⟩) ∧
      (check basketTree true ⟨"."⟩ (basketOptions none "COL0002,COL4242,x")).failure =
        some (.unknownRule ⟨4242⟩) := by
  have hConfig : (Project.loadConfigFor basketTree ⟨"."⟩).value = .ok basketConfig := by
    decide +kernel
  have hNone : (Project.loadSuppressionsIn basketTree
      (Project.searchDirectory basketTree ⟨"."⟩)).value = .ok [] := by
    decide +kernel
  have hSuppressions : ∀ format rules,
      (loadSuppressions basketTree ⟨"."⟩ (basketOptions format rules)).value = .ok [] := by
    intro format rules
    rw [loadSuppressions, basketOptions]
    exact hNone
  have hIds : parseFilter " col0002 ,,COL0001" = .ok [⟨2⟩, ⟨1⟩] := by decide +kernel
  have hOther : parseFilter "COL0001,Col0002,col0001" = .ok [⟨1⟩, ⟨2⟩, ⟨1⟩] := by decide +kernel
  have hRefusal : FirstRefusal "COL0002,COL4242,x" (.unknownRule ⟨4242⟩) :=
    parseFilter_eq_error_iff.1 (by decide +kernel)
  have hFilter : IsFilter " col0002 ,,COL0001" := exists_parseFilter_iff.1 ⟨_, hIds⟩
  have hNames : ∀ id, Names " col0002 ,,COL0001" id ↔ Names "COL0001,Col0002,col0001" id := by
    intro id
    rw [← mem_of_parseFilter hIds, ← mem_of_parseFilter hOther]
    constructor
    · exact List.mem_cons_of_mem _
    · intro hId
      rcases List.mem_cons.1 hId with rfl | hId
      · exact List.mem_cons_of_mem _ List.mem_cons_self
      · exact hId
  obtain ⟨engine, hEngine, hFound⟩ :
      ∃ engine, (Engine.ofConfig basketConfig).value = .ok engine ∧
        (Project.analyze ((engine.withSuppressions []).restrictTo [⟨2⟩, ⟨1⟩]) basketTree ⟨"."⟩
          fun _ _ => false).value = .ok [basketFinding] :=
    ⟨_, rfl, by decide +kernel⟩
  have hUsed : restrict (engine.withSuppressions []) (some " col0002 ,,COL0001") =
      .ok ((engine.withSuppressions []).restrictTo [⟨2⟩, ⟨1⟩]) := by
    rw [restrict, hIds]
    rfl
  have hReports : ∀ format,
      ((engine.withSuppressions []).restrictTo [⟨2⟩, ⟨1⟩]).isEnabled ⟨1⟩ = false ∧
        (check basketTree true ⟨"."⟩ (basketOptions format " col0002 ,,COL0001")).Reports true
          (basketOptions format " col0002 ,,COL0001") basketConfig [basketFinding] := by
    intro format
    obtain ⟨-, -, -, hOutcome⟩ :=
      check_outcome basketTree true ⟨"."⟩ (basketOptions format " col0002 ,,COL0001")
    obtain ⟨used, findings, -, hRestrict, hFindings, -, -, hAllowed, hReports⟩ :=
      (hOutcome basketConfig [] engine hConfig (hSuppressions _ _) hEngine).2
        (by simpa [basketOptions] using hFilter)
    cases hUsed.symm.trans hRestrict
    cases hFound.symm.trans hFindings
    exact ⟨(hAllowed ⟨1⟩ (by decide +kernel)).1, hReports⟩
  obtain ⟨-, hSame, -, -⟩ := check_outcome basketTree true ⟨"."⟩ (basketOptions none "")
  obtain ⟨-, -, -, hRefused⟩ :=
    check_outcome basketTree true ⟨"."⟩ (basketOptions none "COL0002,COL4242,x")
  refine ⟨engine, _, hConfig, hSuppressions, hEngine, hFilter, hUsed, (hReports none).1, hFound,
    ?_, (hReports (some .json)).2.output_eq, (hReports (some .sarif)).2.output_eq, ?_, ?_, hRefusal,
    ?_⟩
  · rw [(hReports none).2.output_eq]
    decide +kernel
  · exact ((hReports none).2.failure _).2 ⟨.info, rfl, by decide, rfl⟩
  · exact hSame _ _ hFilter (exists_parseFilter_iff.1 ⟨_, hOther⟩) hNames
  · exact ((hRefused basketConfig [] engine hConfig (hSuppressions _ _) hEngine).1 _ rfl _
      hRefusal).1

end CommandLine

end CostlyCalls
