/-!
# Static types

The type that a front end has resolved for an expression or a declaration.
-/

set_option autoImplicit false

namespace CostlyCalls

inductive StaticType
  | array (element : StaticType)
  | named (name : String)
  | parameter (name : String)
  | dynamic
  | unresolved
  deriving DecidableEq, Repr

namespace StaticType

def isArray : StaticType → Bool
  | .array _ => true
  | _ => false

def isUnknown : StaticType → Bool
  | .parameter _ | .dynamic | .unresolved => true
  | .array _ | .named _ => false

def display : StaticType → String
  | .array element => element.display ++ "[]"
  | .named name => name
  | .parameter name => name
  | .dynamic => "dynamic"
  | .unresolved => "?"

end StaticType

end CostlyCalls
