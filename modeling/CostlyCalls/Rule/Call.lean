import CostlyCalls.Rule
import CostlyCalls.Text.Template

/-!
# Rules about calls

A call rule flags calls of some operations of the facade on receivers that meet a condition, because
the receiver offers the same at a lower cost.
-/

set_option autoImplicit false

namespace CostlyCalls

structure CallRule where
  id : RuleId
  name : String
  description : String := ""
  operations : List String
  predicate : Predicate
  kinds : List Kind
  message : String
  explanation : Explanation
  deriving Repr

namespace CallRule

def site? (rule : CallRule) (ctx : Context) (node : Node) : Option CallSite :=
  rule.operations.findSome? (fun operation => CallSite.find? ctx node operation rule.predicate)

def subject (ctx : Context) (receiver : NodeId) : String :=
  ((ctx.node? receiver).map Node.displayName).getD "expression"

def finding? (rule : CallRule) (ctx : Context) (node : Node) : Option Finding :=
  (rule.site? ctx node).map fun site =>
    Finding.atNode rule.id .warning (some rule.explanation) ctx node
      (Text.Template.fill rule.message (subject ctx site.receiver))

def toRule (rule : CallRule) : Rule where
  id := rule.id
  name := rule.name
  description := rule.description
  severity := .warning
  kinds := rule.kinds
  explanation := some rule.explanation
  check ctx node :=
    match rule.finding? ctx node with
    | some finding => ⟨.report finding, false⟩
    | none => ⟨.clear, false⟩

end CallRule

end CostlyCalls
