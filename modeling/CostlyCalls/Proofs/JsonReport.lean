import Mathlib.Data.List.Forall2
import CostlyCalls.Json.Fields
import CostlyCalls.Proofs.IdentifierGrammar
import CostlyCalls.Proofs.Json.Grammar
import CostlyCalls.Proofs.Json.Layout
import CostlyCalls.Proofs.Json.Places
import CostlyCalls.Report.Json

/-!
# The JSON report loses nothing

The report is a well-formed text. What is read from it is an array with one object for every
finding, in order, whose members are the fields of the finding and nothing else. An object records
only one finding, so the report determines the findings.
-/

set_option autoImplicit false

namespace CostlyCalls

open Json

namespace Severity

theorem ofName?_name (s : Severity) : ofName? s.name = some s := by cases s <;> decide

theorem name_injective : Function.Injective name := by
  intro s t hName
  have hRead := congrArg ofName? hName
  rw [ofName?_name, ofName?_name] at hRead
  exact Option.some.inj hRead

end Severity

namespace Json.Value

theorem text_inj {s t : String} : text s = text t ↔ s = t := by
  simp [text]

theorem nat_toNat_inj {m n : UInt64} : nat m.toNat = nat n.toNat ↔ m = n := by
  simp [nat, UInt64.toNat_inj]

theorem ofOption_injective {α : Type} {f : α → Value} (hNull : ∀ a, f a ≠ .null)
    (hf : Function.Injective f) : Function.Injective (ofOption f) := by
  intro a b hEq
  cases a with
  | none =>
    cases b with
    | none => rfl
    | some b => exact absurd hEq.symm (hNull b)
  | some a =>
    cases b with
    | none => exact absurd hEq (hNull a)
    | some b => exact congrArg some (hf hEq)

end Json.Value

namespace Finding

def fieldNames : List String :=
  ["rule_id", "severity", "message", "file_path", "line", "column", "end_line", "end_column",
    "suggestion"]

/-- The members of the object are the fields of the finding, with null for what is absent. -/
structure RecordedIn (finding : Finding) (item : Value) : Prop where
  keys : item.keys = fieldNames.map some
  rule : item.at? [.member "rule_id"] = some (.text finding.rule.toText)
  severity : item.at? [.member "severity"] = some (.text finding.severity.name)
  message : item.at? [.member "message"] = some (.text finding.message)
  file : item.at? [.member "file_path"] = some (.text finding.file.text)
  line : item.at? [.member "line"] = some (.nat finding.line.toNat)
  column : item.at? [.member "column"] = some (.nat finding.column.toNat)
  endLine : item.at? [.member "end_line"] = some (.ofOption (fun n => .nat n.toNat) finding.endLine)
  endColumn :
    item.at? [.member "end_column"] = some (.ofOption (fun n => .nat n.toNat) finding.endColumn)
  suggestion : item.at? [.member "suggestion"] = some (.ofOption .text finding.suggestion)

theorem recordedIn_toJson (finding : Finding) : finding.RecordedIn finding.toJson := by
  constructor <;> simp [toJson, fieldNames, List.lookup_cons, positionToJson]

theorem isSound_toJson (finding : Finding) {room : Nat} (hRoom : 0 < room) :
    finding.toJson.isSound room = true := by
  have hNat : ∀ n : UInt64, (Value.nat n.toNat).Readable :=
    fun n => .nat (Nat.le_pred_of_lt n.toNat_lt)
  have hPosition : ∀ position, (positionToJson position).Readable := .ofOption hNat
  rw [Value.isSound_iff]
  constructor
  · apply Value.Readable.record
    simp only [List.forall_mem_cons]
    exact ⟨.text _, .text _, .text _, .text _, hNat _, hNat _, hPosition _, hPosition _,
      .ofOption .text _, by simp⟩
  · have hEnd : ∀ position, (positionToJson position).depth ≤ 0 :=
      fun _ => Value.depth_ofOption_le_iff.2 fun n _ => Nat.le_of_eq (Value.depth_nat _)
    have hSuggestion : (Value.ofOption .text finding.suggestion).depth ≤ 0 :=
      Value.depth_ofOption_le_iff.2 fun s _ => Nat.le_of_eq (Value.depth_text s)
    apply Nat.le_trans _ hRoom
    rw [toJson, Value.depth_record_le_iff]
    simpa using ⟨Nat.le_zero.1 (hEnd _), Nat.le_zero.1 (hEnd _), Nat.le_zero.1 hSuggestion⟩

theorem RecordedIn.unique {first second : Finding} {item : Value} (hFirst : first.RecordedIn item)
    (hSecond : second.RecordedIn item) : first = second := by
  have hPosition : Function.Injective (Value.ofOption fun n : UInt64 => .nat n.toNat) :=
    Value.ofOption_injective (fun _ => nofun) fun _ _ => Value.nat_toNat_inj.1
  have hText : Function.Injective (Value.ofOption Value.text) :=
    Value.ofOption_injective (fun _ => nofun) fun _ _ => Value.text_inj.1
  have hRule := RuleId.toText_injective
    (Value.text_inj.1 (Option.some.inj (hFirst.rule.symm.trans hSecond.rule)))
  have hSeverity := Severity.name_injective
    (Value.text_inj.1 (Option.some.inj (hFirst.severity.symm.trans hSecond.severity)))
  have hMessage := Value.text_inj.1 (Option.some.inj (hFirst.message.symm.trans hSecond.message))
  have hFile := Value.text_inj.1 (Option.some.inj (hFirst.file.symm.trans hSecond.file))
  have hLine := Value.nat_toNat_inj.1 (Option.some.inj (hFirst.line.symm.trans hSecond.line))
  have hColumn := Value.nat_toNat_inj.1 (Option.some.inj (hFirst.column.symm.trans hSecond.column))
  have hEndLine := hPosition (Option.some.inj (hFirst.endLine.symm.trans hSecond.endLine))
  have hEndColumn := hPosition (Option.some.inj (hFirst.endColumn.symm.trans hSecond.endColumn))
  have hSuggestion := hText (Option.some.inj (hFirst.suggestion.symm.trans hSecond.suggestion))
  obtain ⟨_, _, _, ⟨_⟩, _, _, _, _, _⟩ := first
  obtain ⟨_, _, _, ⟨_⟩, _, _, _, _, _⟩ := second
  cases hRule
  cases hSeverity
  cases hMessage
  cases hFile
  cases hLine
  cases hColumn
  cases hEndLine
  cases hEndColumn
  cases hSuggestion
  rfl

end Finding

namespace Report

theorem parse?_json (findings : List Finding) :
    Json.parse? (json findings) = some (.array (findings.map Finding.toJson)) := parse?_pretty _

theorem forall₂_recordedIn (findings : List Finding) :
    List.Forall₂ Finding.RecordedIn findings (findings.map Finding.toJson) := by
  rw [List.forall₂_map_right_iff, List.forall₂_same]
  exact fun finding _ => finding.recordedIn_toJson

theorem isSound_json (findings : List Finding) :
    (Value.array (findings.map Finding.toJson)).isSound depthLimit = true := by
  rw [Value.isSound, Bool.and_eq_true, Value.areSound_iff, List.forall_mem_map]
  exact ⟨by decide, fun finding _ => finding.isSound_toJson (by decide)⟩

/-- The report is well formed and within all limits of the reader, it is read as an array that
records the findings one by one, and different findings have different reports. -/
theorem json_lossless :
    (∀ findings, Json.Grammar.IsText (json findings).toList ∧
      ∃ items, Json.parse? (json findings) = some (.array items) ∧
        (Value.array items).isSound depthLimit = true ∧
        List.Forall₂ Finding.RecordedIn findings items) ∧
    Function.Injective json := by
  constructor
  · intro findings
    exact ⟨Json.Grammar.isText_pretty _, _, parse?_json findings, isSound_json findings,
      forall₂_recordedIn findings⟩
  · intro first second hText
    have hItems : some (Value.array (first.map Finding.toJson)) =
        some (.array (second.map Finding.toJson)) := by
      rw [← parse?_json, ← parse?_json, hText]
    have hFirst := forall₂_recordedIn first
    rw [Value.array.inj (Option.some.inj hItems)] at hFirst
    exact List.left_unique_forall₂' (fun _ _ _ hf hg => hf.unique hg) hFirst
      (forall₂_recordedIn second)

end Report

end CostlyCalls
