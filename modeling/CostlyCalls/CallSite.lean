import CostlyCalls.Arena
import CostlyCalls.Model

/-!
# Call sites

A call site is a node that invokes an operation of the facade on a receiver whose type meets a
condition. `CallSite.find?` decides whether a node is one.
-/

set_option autoImplicit false

namespace CostlyCalls

structure Context where
  arena : Arena
  model : Model
  table : CapabilityTable
  facade : String

namespace Context

def file (ctx : Context) : Path := ctx.arena.file

def node? (ctx : Context) (id : NodeId) : Option Node := ctx.arena.get? id

end Context

inductive Arity
  | zero
  | any
  deriving DecidableEq, Repr

namespace Arity

/-- The operations whose overloads with parameters are considered too. -/
def exempt : List String := ["Contains", "ElementAt", "ElementAtOrDefault"]

def ofOperation (operation : String) : Arity :=
  if operation ∈ exempt then .any else .zero

def admits (arity : Arity) (parameterCount : UInt64) : Bool :=
  match arity with
  | .zero => parameterCount == 0
  | .any => true

end Arity

structure CallSite where
  operation : String
  parameterCount : UInt64
  declaringType : String
  receiver : NodeId
  receiverType : StaticType
  deriving DecidableEq, Repr

namespace CallSite

/-- The left-hand side of the member access that names the operation: of the node itself, or of the
callee of an invocation. -/
def receiver? (ctx : Context) (node : Node) : Option NodeId :=
  match node.shape with
  | .memberAccess receiver _ => some receiver
  | .invocation callee _ =>
    match (ctx.node? callee).map Node.shape with
    | some (.memberAccess receiver _) => some receiver
    | _ => none
  | _ => none

/-- The call site of `operation` at a node. The facade has to declare the method that the node
resolves to. -/
def find? (ctx : Context) (node : Node) (operation : String) (predicate : Predicate) :
    Option CallSite := do
  let receiver ← receiver? ctx node
  let method ← (ctx.model.symbol? node.id).bind Symbol.method?
  guard (method.name = operation)
  guard ((Arity.ofOperation operation).admits method.parameterCount)
  let declaringType ← method.containingType
  guard (declaringType = ctx.facade)
  let receiverType ← ctx.model.type? receiver
  guard (predicate.holds ctx.table ctx.model receiverType)
  return ⟨method.name, method.parameterCount, declaringType, receiver, receiverType⟩

end CallSite

end CostlyCalls
