import CostlyCalls.CallSite
import CostlyCalls.Finding

/-!
# Rules

A rule has an identity, a default severity, the kinds of node it is run on, and a check. A check
ends with nothing, with a finding, or in a crash, and may ask for the whole run to stop.
-/

set_option autoImplicit false

namespace CostlyCalls

structure Explanation where
  why : String
  bad : String
  good : String
  suggestion : String
  deriving DecidableEq, Repr

inductive Verdict
  | clear
  | report (finding : Finding)
  | crash (payload : Option String)
  deriving DecidableEq, Repr

structure Check where
  verdict : Verdict
  stops : Bool := false
  deriving DecidableEq, Repr

structure Rule where
  id : RuleId
  name : String
  description : String := ""
  severity : Severity := .warning
  /-- A kind that stands here twice makes the rule run twice. -/
  kinds : List Kind
  explanation : Option Explanation := none
  check : Context → Node → Check

namespace Finding

def atNode (rule : RuleId) (severity : Severity) (explanation : Option Explanation)
    (ctx : Context) (node : Node) (message : String) : Finding where
  rule
  severity
  message
  file := ctx.file
  line := node.span.line
  column := node.span.column
  endLine := node.span.endLine
  endColumn := node.span.endColumn
  suggestion := explanation.map Explanation.suggestion

end Finding

end CostlyCalls
