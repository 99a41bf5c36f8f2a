import CostlyCalls.Rule
import CostlyCalls.Text.Template

/-!
# Rules about declarations

A declaration rule flags members whose declared type is an array.
-/

set_option autoImplicit false

namespace CostlyCalls

inductive Declaration
  | field
  | property
  | methodReturn
  deriving DecidableEq, Repr

namespace Declaration

def kind : Declaration → Kind
  | .field => .fieldDeclaration
  | .property => .propertyDeclaration
  | .methodReturn => .methodDeclaration

def type? : Declaration → Symbol → Option StaticType
  | .field, .typed .field _ type => some type
  | .property, .typed .property _ type => some type
  | .methodReturn, .method m => m.returnType
  | _, _ => none

def declaresArray (declaration : Declaration) (symbol : Symbol) : Bool :=
  (declaration.type? symbol).any StaticType.isArray

end Declaration

structure DeclarationRule where
  id : RuleId
  name : String
  description : String := ""
  declaration : Declaration
  message : String
  explanation : Explanation
  deriving Repr

namespace DeclarationRule

def finding? (rule : DeclarationRule) (ctx : Context) (node : Node) : Option Finding :=
  ((ctx.model.symbol? node.id).filter rule.declaration.declaresArray).map fun symbol =>
    Finding.atNode rule.id .warning (some rule.explanation) ctx node
      (Text.Template.fill rule.message symbol.name)

def toRule (rule : DeclarationRule) : Rule where
  id := rule.id
  name := rule.name
  description := rule.description
  severity := .warning
  kinds := [rule.declaration.kind]
  explanation := some rule.explanation
  check ctx node :=
    match rule.finding? ctx node with
    | some finding => ⟨.report finding, false⟩
    | none => ⟨.clear, false⟩

end DeclarationRule

end CostlyCalls
