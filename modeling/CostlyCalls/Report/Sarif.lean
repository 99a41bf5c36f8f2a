import CostlyCalls.Finding
import CostlyCalls.Json.Printer
import CostlyCalls.Rule.Catalogue

/-!
# The SARIF report

The findings as a log in the Static Analysis Results Interchange Format. A log lists a descriptor
for every rule that occurs, in the order of first occurrence, and one result for every finding.
-/

set_option autoImplicit false

namespace CostlyCalls.Sarif

open CostlyCalls.Json (Value)

structure Descriptor where
  id : String
  name : String
  summary : String
  deriving DecidableEq, Repr

structure Region where
  startLine : UInt64
  startColumn : UInt64
  endLine : Option UInt64
  endColumn : Option UInt64
  deriving DecidableEq, Repr

structure Result where
  rule : String
  level : String
  message : String
  uri : String
  region : Region
  deriving DecidableEq, Repr

structure Log where
  descriptors : List Descriptor
  results : List Result
  deriving DecidableEq, Repr

def toolName : String := "collection-lint"

def toolVersion : String := "0.3.0"

def schema : String :=
  "https://raw.githubusercontent.com/oasis-tcs/sarif-spec/master/Schemata/sarif-schema-2.1.0.json"

def levelOf : Severity → String
  | .info => "note"
  | .warning => "warning"
  | .error => "error"

def uriOf (path : Path) : String :=
  String.ofList (path.text.toList.map fun c => if c = '\\' then '/' else c)

/-- The descriptor of the rule of a finding. A rule that is not built in is described by its
identifier and the message of the finding. -/
def Descriptor.ofFinding (finding : Finding) : Descriptor :=
  match Catalogue.named? finding.rule.toText with
  | some rule => ⟨finding.rule.toText, rule.name, rule.description⟩
  | none => ⟨finding.rule.toText, finding.rule.toText, finding.message⟩

def Result.ofFinding (finding : Finding) : Result where
  rule := finding.rule.toText
  level := levelOf finding.severity
  message := finding.message
  uri := uriOf finding.file
  region := ⟨finding.line, finding.column, finding.endLine, finding.endColumn⟩

def firstFindings (seen : List RuleId) : List Finding → List Finding
  | [] => []
  | finding :: rest =>
    if finding.rule ∈ seen then firstFindings seen rest
    else finding :: firstFindings (finding.rule :: seen) rest

def Log.ofFindings (findings : List Finding) : Log where
  descriptors := (firstFindings [] findings).map .ofFinding
  results := findings.map .ofFinding

def messageToJson (text : String) : Value := .record [("text", .text text)]

def Descriptor.toJson (descriptor : Descriptor) : Value :=
  .record [
    ("id", .text descriptor.id),
    ("name", .text descriptor.name),
    ("shortDescription", messageToJson descriptor.summary)]

def positionMember (key : String) (position : Option UInt64) : List (String × Value) :=
  position.toList.map fun n => (key, .nat n.toNat)

def Region.toJson (region : Region) : Value :=
  .record ([
    ("startLine", .nat region.startLine.toNat),
    ("startColumn", .nat region.startColumn.toNat)]
    ++ positionMember "endLine" region.endLine ++ positionMember "endColumn" region.endColumn)

def Result.toJson (result : Result) : Value :=
  .record [
    ("ruleId", .text result.rule),
    ("level", .text result.level),
    ("message", messageToJson result.message),
    ("locations", .array [.record [
      ("physicalLocation", .record [
        ("artifactLocation", .record [("uri", .text result.uri)]),
        ("region", result.region.toJson)])]])]

def Log.toJson (log : Log) : Value :=
  .record [
    ("$schema", .text schema),
    ("version", .text "2.1.0"),
    ("runs", .array [.record [
      ("tool", .record [
        ("driver", .record [
          ("name", .text toolName),
          ("version", .text toolVersion),
          ("rules", .array (log.descriptors.map Descriptor.toJson))])]),
      ("results", .array (log.results.map Result.toJson))]])]

end CostlyCalls.Sarif

namespace CostlyCalls

def Report.sarif (findings : List Finding) : String := (Sarif.Log.ofFindings findings).toJson.pretty

end CostlyCalls
