import CostlyCalls.Finding
import CostlyCalls.Json.Printer

/-!
# The JSON report

The findings as an indented JSON array. Every finding has all its fields; what is absent is null.
-/

set_option autoImplicit false

namespace CostlyCalls

open CostlyCalls.Json (Value)

def positionToJson (position : Option UInt64) : Value :=
  .ofOption (fun n => .nat n.toNat) position

def Finding.toJson (finding : Finding) : Value :=
  .record [
    ("rule_id", .text finding.rule.toText),
    ("severity", .text finding.severity.name),
    ("message", .text finding.message),
    ("file_path", .text finding.file.text),
    ("line", .nat finding.line.toNat),
    ("column", .nat finding.column.toNat),
    ("end_line", positionToJson finding.endLine),
    ("end_column", positionToJson finding.endColumn),
    ("suggestion", .ofOption .text finding.suggestion)]

def Report.json (findings : List Finding) : String :=
  (Value.array (findings.map Finding.toJson)).pretty

end CostlyCalls
