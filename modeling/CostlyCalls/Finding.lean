import CostlyCalls.Path
import CostlyCalls.RuleId
import CostlyCalls.Severity

/-!
# Findings

A finding is what a rule reports about one place of a file.
-/

set_option autoImplicit false

namespace CostlyCalls

structure Finding where
  rule : RuleId
  severity : Severity
  message : String
  file : Path
  line : UInt64
  column : UInt64
  endLine : Option UInt64
  endColumn : Option UInt64
  suggestion : Option String
  deriving DecidableEq, Repr

end CostlyCalls
