/-!
# Nodes

A node of an analysed file has an identifier, a place in the source, perhaps its source text, and a
shape. Nodes refer to each other by identifier.
-/

set_option autoImplicit false

namespace CostlyCalls

structure NodeId where
  value : UInt32
  deriving DecidableEq, Repr

def NodeId.display (id : NodeId) : String := "#" ++ id.value.toNat.repr

structure Span where
  line : UInt64 := 0
  column : UInt64 := 0
  endLine : Option UInt64 := none
  endColumn : Option UInt64 := none
  deriving DecidableEq, Repr

inductive Kind
  | invocation
  | memberAccess
  | identifier
  | literal
  | fieldDeclaration
  | propertyDeclaration
  | methodDeclaration
  | other
  deriving DecidableEq, Repr

namespace Kind

/-- Every kind, in the order of their written numbers. -/
def all : List Kind :=
  [.invocation, .memberAccess, .identifier, .literal, .fieldDeclaration, .propertyDeclaration,
    .methodDeclaration, .other]

def display : Kind → String
  | .invocation => "invocation"
  | .memberAccess => "member access"
  | .identifier => "identifier"
  | .literal => "literal"
  | .fieldDeclaration => "field declaration"
  | .propertyDeclaration => "property declaration"
  | .methodDeclaration => "method declaration"
  | .other => "other"

def tag : Kind → String
  | .invocation => "invocation"
  | .memberAccess => "member_access"
  | .identifier => "identifier"
  | .literal => "literal"
  | .fieldDeclaration => "field_declaration"
  | .propertyDeclaration => "property_declaration"
  | .methodDeclaration => "method_declaration"
  | .other => "other"

end Kind

inductive Shape
  | invocation (callee : NodeId) (arguments : List NodeId)
  | memberAccess (receiver : NodeId) (name : String)
  | identifier (name : String)
  | literal
  | fieldDeclaration (name : String)
  | propertyDeclaration (name : String)
  | methodDeclaration (name : String)
  | other
  deriving DecidableEq, Repr

namespace Shape

def kind : Shape → Kind
  | .invocation .. => .invocation
  | .memberAccess .. => .memberAccess
  | .identifier _ => .identifier
  | .literal => .literal
  | .fieldDeclaration _ => .fieldDeclaration
  | .propertyDeclaration _ => .propertyDeclaration
  | .methodDeclaration _ => .methodDeclaration
  | .other => .other

def children : Shape → List NodeId
  | .invocation callee arguments => callee :: arguments
  | .memberAccess receiver _ => [receiver]
  | _ => []

end Shape

structure Node where
  id : NodeId
  span : Span := {}
  text : Option String := none
  shape : Shape
  deriving DecidableEq, Repr

namespace Node

def kind (node : Node) : Kind := node.shape.kind

def children (node : Node) : List NodeId := node.shape.children

/-- The name for a node in messages: a declared or plain name, a member's name if the source text
is missing, and otherwise the source text. -/
def displayName (node : Node) : String :=
  match node.shape with
  | .identifier name | .fieldDeclaration name | .propertyDeclaration name
  | .methodDeclaration name => name
  | .memberAccess _ name => node.text.getD name
  | .invocation .. | .literal | .other => node.text.getD "expression"

end Node

end CostlyCalls
