import Mathlib.Data.List.Forall2
import CostlyCalls.Json.Fields
import CostlyCalls.Proofs.IdentifierGrammar
import CostlyCalls.Proofs.Json.Layout
import CostlyCalls.Proofs.Json.Places
import CostlyCalls.Registry
import CostlyCalls.Report.Sarif

/-!
# Descriptors and results of the SARIF report

The results of the log are the findings one by one. The descriptors are those of the first finding
of every rule. Rules are told apart by their numbers and the parts of the log refer to each other by
printed identifiers, which is the same because different numbers are printed differently.
-/

set_option autoImplicit false

namespace CostlyCalls

open Json

namespace Catalogue

theorem find?_eq_some_iff {id : RuleId} {rule : Rule} :
    find? id = some rule ↔ rule ∈ rules ∧ rule.id = id :=
  Keyed.find?_key_eq_some_iff Registry.builtin.distinct

theorem find?_eq_none_iff {id : RuleId} : find? id = none ↔ ∀ rule ∈ rules, rule.id ≠ id := by
  simp [find?, List.find?_eq_none]

theorem named?_toText (id : RuleId) : named? id.toText = find? id := by
  rw [named?, RuleId.parse?, RuleId.parse_toText]
  split
  · rfl
  · next hNumber =>
    symm
    apply find?_eq_none_iff.2
    rintro rule hRule rfl
    exact hNumber (of_decide_eq_true (Registry.builtin.bounded rule hRule))

end Catalogue

namespace Sarif

theorem mem_firstFindings_iff {seen : List RuleId} {findings : List Finding} {finding : Finding} :
    finding ∈ firstFindings seen findings ↔
      finding.rule ∉ seen ∧ findings.find? (fun f => f.rule = finding.rule) = some finding := by
  induction findings generalizing seen with
  | nil => simp [firstFindings]
  | cons head rest ih =>
    rw [firstFindings, List.find?_cons]
    split
    · next hSeen =>
      rw [ih]
      apply and_congr_right
      intro hNew
      have hOther : head.rule ≠ finding.rule := fun hRule => hNew (hRule ▸ hSeen)
      simp [hOther]
    · next hSeen =>
      rw [List.mem_cons, ih, List.mem_cons, not_or]
      constructor
      · rintro (rfl | ⟨⟨hOther, hNew⟩, hFind⟩)
        · exact ⟨hSeen, by simp⟩
        · exact ⟨hNew, by simpa [Ne.symm hOther] using hFind⟩
      · rintro ⟨hNew, hFind⟩
        split at hFind
        · exact .inl (Option.some.inj hFind).symm
        · next hOther =>
          exact .inr ⟨⟨fun hRule => of_decide_eq_false hOther hRule.symm, hNew⟩, hFind⟩

def texts (findings : List Finding) : List String := findings.map fun f => f.rule.toText

theorem idxOf_texts_cons {head finding : Finding} {rest : List Finding}
    (hOther : head.rule ≠ finding.rule) :
    (texts (head :: rest)).idxOf finding.rule.toText =
      (texts rest).idxOf finding.rule.toText + 1 :=
  List.idxOf_cons_ne _ fun hText => hOther (RuleId.toText_injective hText)

theorem pairwise_firstFindings {seen : List RuleId} {findings : List Finding} :
    (firstFindings seen findings).Pairwise fun f g =>
      (texts findings).idxOf f.rule.toText < (texts findings).idxOf g.rule.toText := by
  induction findings generalizing seen with
  | nil => exact .nil
  | cons head rest ih =>
    have hRest : ∀ seen, head.rule ∈ seen → (firstFindings seen rest).Pairwise fun f g =>
        (texts (head :: rest)).idxOf f.rule.toText <
          (texts (head :: rest)).idxOf g.rule.toText := by
      intro seen hHead
      refine ih.imp_of_mem fun {f g} hf hg hLess => ?_
      have hNewF := (mem_firstFindings_iff.1 hf).1
      have hNewG := (mem_firstFindings_iff.1 hg).1
      rw [idxOf_texts_cons fun hRule => hNewF (hRule ▸ hHead),
        idxOf_texts_cons fun hRule => hNewG (hRule ▸ hHead)]
      omega
    rw [firstFindings]
    split
    · next hSeen => exact hRest seen hSeen
    · refine .cons (fun g hg => ?_) (hRest _ List.mem_cons_self)
      have hNew := (mem_firstFindings_iff.1 hg).1
      have hOther : head.rule ≠ g.rule := fun hRule => hNew (List.mem_cons.2 (.inl hRule.symm))
      have hFirst : (texts (head :: rest)).idxOf head.rule.toText = 0 := List.idxOf_cons_self
      rw [hFirst, idxOf_texts_cons hOther]
      omega

theorem mem_texts_firstFindings_iff {findings : List Finding} {id : String} :
    id ∈ texts (firstFindings [] findings) ↔ id ∈ texts findings := by
  constructor
  · intro hId
    obtain ⟨finding, hFirst, rfl⟩ := List.mem_map.1 hId
    have hFind := (mem_firstFindings_iff.1 hFirst).2
    exact List.mem_map_of_mem (List.mem_of_find?_eq_some hFind)
  · intro hId
    obtain ⟨finding, hFinding, rfl⟩ := List.mem_map.1 hId
    have hSome : (findings.find? fun f => f.rule = finding.rule).isSome = true :=
      List.find?_isSome.2 ⟨finding, hFinding, by simp⟩
    obtain ⟨first, hFirst⟩ := Option.isSome_iff_exists.1 hSome
    have hRule : first.rule = finding.rule := by simpa using List.find?_some hFirst
    refine List.mem_map.2 ⟨first, mem_firstFindings_iff.2 ⟨List.not_mem_nil, ?_⟩, by rw [hRule]⟩
    rw [hRule]
    exact hFirst

/-- The descriptor has the name and the description of the built-in rule that reports the finding,
and the identifier and the message of the finding if there is none. -/
structure DescribedIn (finding : Finding) (descriptor : Value) : Prop where
  id : descriptor.at? [.member "id"] = some (.text finding.rule.toText)
  builtin : ∀ rule ∈ Catalogue.rules, rule.id = finding.rule →
    descriptor.at? [.member "name"] = some (.text rule.name) ∧
      descriptor.at? [.member "shortDescription", .member "text"] = some (.text rule.description)
  custom : (∀ rule ∈ Catalogue.rules, rule.id ≠ finding.rule) →
    descriptor.at? [.member "name"] = some (.text finding.rule.toText) ∧
      descriptor.at? [.member "shortDescription", .member "text"] = some (.text finding.message)

def locationPlace : List Place := [.member "locations", .item 0, .member "physicalLocation"]

def regionPlace : List Place := locationPlace ++ [.member "region"]

structure WrittenIn (finding : Finding) (result : Value) : Prop where
  rule : result.at? [.member "ruleId"] = some (.text finding.rule.toText)
  level : ∃ level, result.at? [.member "level"] = some (.text level) ∧
    (finding.severity, level) ∈ [(.info, "note"), (.warning, "warning"), (.error, "error")]
  message : result.at? [.member "message", .member "text"] = some (.text finding.message)
  uri : ∃ uri : String,
    result.at? (locationPlace ++ [.member "artifactLocation", .member "uri"]) = some (.text uri) ∧
      List.Forall₂ (fun c d => d = if c = '\\' then '/' else c) finding.file.text.toList uri.toList
  startLine : result.at? (regionPlace ++ [.member "startLine"]) = some (.nat finding.line.toNat)
  startColumn :
    result.at? (regionPlace ++ [.member "startColumn"]) = some (.nat finding.column.toNat)
  endLine :
    result.at? (regionPlace ++ [.member "endLine"]) = finding.endLine.map fun n => .nat n.toNat
  endColumn :
    result.at? (regionPlace ++ [.member "endColumn"]) = finding.endColumn.map fun n => .nat n.toNat

theorem describedIn_toJson (finding : Finding) :
    DescribedIn finding (Descriptor.ofFinding finding).toJson := by
  have hNamed := Catalogue.named?_toText finding.rule
  constructor
  · unfold Descriptor.ofFinding
    split <;> simp [Descriptor.toJson]
  · intro rule hRule hId
    have hFind := Catalogue.find?_eq_some_iff.2 ⟨hRule, hId⟩
    simp [Descriptor.ofFinding, hNamed, hFind, Descriptor.toJson, messageToJson, List.lookup_cons]
  · intro hCustom
    have hFind := Catalogue.find?_eq_none_iff.2 hCustom
    simp [Descriptor.ofFinding, hNamed, hFind, Descriptor.toJson, messageToJson, List.lookup_cons]

theorem lookup_positionMember {key name : String} {position : Option UInt64} :
    (positionMember key position).lookup name =
      if name = key then position.map fun n => .nat n.toNat else none := by
  cases position with
  | none => simp [positionMember]
  | some n =>
    show ([(key, Value.nat n.toNat)] : List (String × Value)).lookup name = _
    rw [Keyed.lookup_cons]
    rfl

theorem at?_region (result : Result) (place : List Place) :
    result.toJson.at? (regionPlace ++ place) = result.region.toJson.at? place := by
  simp [Result.toJson, regionPlace, locationPlace, List.lookup_cons]

theorem forall₂_uriOf (path : Path) :
    List.Forall₂ (fun c d => d = if c = '\\' then '/' else c) path.text.toList
      (uriOf path).toList := by
  rw [uriOf, String.toList_ofList, List.forall₂_map_right_iff, List.forall₂_same]
  exact fun c _ => rfl

theorem writtenIn_toJson (finding : Finding) :
    WrittenIn finding (Result.ofFinding finding).toJson := by
  constructor
  case level =>
    refine ⟨levelOf finding.severity, ?_, ?_⟩
    · simp [Result.toJson, Result.ofFinding, List.lookup_cons]
    · cases finding.severity <;> simp [levelOf]
  case uri =>
    refine ⟨uriOf finding.file, ?_, forall₂_uriOf finding.file⟩
    simp [Result.toJson, Result.ofFinding, locationPlace, List.lookup_cons]
  case startLine | startColumn | endLine | endColumn =>
    rw [at?_region]
    simp [Result.ofFinding, Region.toJson, List.lookup_cons, List.lookup_append,
      lookup_positionMember]
  case rule | message =>
    simp [Result.toJson, Result.ofFinding, messageToJson, List.lookup_cons]

def rulesPlace : List Place :=
  [.member "runs", .item 0, .member "tool", .member "driver", .member "rules"]

def resultsPlace : List Place := [.member "runs", .item 0, .member "results"]

theorem at?_rules (log : Log) :
    log.toJson.at? rulesPlace = some (.array (log.descriptors.map Descriptor.toJson)) := by
  simp [Log.toJson, rulesPlace, List.lookup_cons]

theorem at?_results (log : Log) :
    log.toJson.at? resultsPlace = some (.array (log.results.map Result.toJson)) := by
  simp [Log.toJson, resultsPlace, List.lookup_cons]

def textsAt (place : List Place) (values : List Value) : List String :=
  values.filterMap fun v => (v.at? place).bind text?

theorem textsAt_map {findings : List Finding} {write : Finding → Value} {place : List Place}
    (hWrite : ∀ finding, (write finding).at? place = some (.text finding.rule.toText)) :
    textsAt place (findings.map write) = texts findings := by
  rw [textsAt, texts, List.filterMap_map, ← List.filterMap_eq_map]
  apply List.filterMap_congr
  intro finding _
  simp [hWrite, text?, Value.text]

/-- The printed log has a result for every finding, and a descriptor for every identifier of a
result, in the order of first occurrence. -/
theorem log_consistent (findings : List Finding) :
    ∃ log descriptors results, Json.parse? (Report.sarif findings) = some log ∧
      log.at? rulesPlace = some (.array descriptors) ∧
      log.at? resultsPlace = some (.array results) ∧
      List.Forall₂ WrittenIn findings results ∧
      (textsAt [.member "id"] descriptors).Nodup ∧
      (textsAt [.member "id"] descriptors).Pairwise (fun a b =>
        (textsAt [.member "ruleId"] results).idxOf a <
          (textsAt [.member "ruleId"] results).idxOf b) ∧
      (∀ id, id ∈ textsAt [.member "id"] descriptors ↔ id ∈ textsAt [.member "ruleId"] results) ∧
      ∀ descriptor ∈ descriptors, ∃ finding,
        findings.find? (fun f => f.rule = finding.rule) = some finding ∧
          DescribedIn finding descriptor := by
  have hIds : textsAt [.member "id"] ((Log.ofFindings findings).descriptors.map Descriptor.toJson) =
      texts (firstFindings [] findings) := by
    rw [Log.ofFindings, List.map_map]
    exact textsAt_map fun finding => (describedIn_toJson finding).id
  have hUsed : textsAt [.member "ruleId"] ((Log.ofFindings findings).results.map Result.toJson) =
      texts findings := by
    rw [Log.ofFindings, List.map_map]
    exact textsAt_map fun finding => (writtenIn_toJson finding).rule
  have hOrder : (texts (firstFindings [] findings)).Pairwise fun a b =>
      (texts findings).idxOf a < (texts findings).idxOf b :=
    List.pairwise_map.2 pairwise_firstFindings
  refine ⟨_, _, _, parse?_pretty _, at?_rules _, at?_results _, ?_, ?_, ?_, ?_, ?_⟩
  · rw [Log.ofFindings, List.map_map, List.forall₂_map_right_iff, List.forall₂_same]
    exact fun finding _ => writtenIn_toJson finding
  · rw [hIds]
    apply hOrder.imp
    rintro a b hLess rfl
    omega
  · rw [hIds, hUsed]
    exact hOrder
  · rw [hIds, hUsed]
    exact fun id => mem_texts_firstFindings_iff
  · rw [Log.ofFindings, List.map_map, List.forall_mem_map]
    intro finding hFinding
    exact ⟨finding, (mem_firstFindings_iff.1 hFinding).2, describedIn_toJson finding⟩

end Sarif

end CostlyCalls
