import CostlyCalls.Arena.Node
import CostlyCalls.Capability
import CostlyCalls.Symbol

/-!
# Semantic models

A model answers what a front end has resolved: the symbol of a node, the static type of a node, and
the interfaces of a named type. A capability predicate is a condition on a static type under a
model.
-/

set_option autoImplicit false

namespace CostlyCalls

structure Model where
  symbol? : NodeId → Option Symbol
  type? : NodeId → Option StaticType
  interfaces : String → List String

namespace CapabilityTable

/-- Whether a type has a capability: arrays have all of them, a named type those whose interface it
has, and a type of which nothing is known has none. -/
def has (table : CapabilityTable) (model : Model) (type : StaticType) (capability : Capability) :
    Bool :=
  match type with
  | .array _ => true
  | .named name => (model.interfaces name).contains (table.interface capability)
  | .parameter _ | .dynamic | .unresolved => false

end CapabilityTable

inductive Predicate
  | has (capability : Capability)
  | lacks (capability : Capability)
  | isArray
  | isNotArray
  deriving DecidableEq, Repr

namespace Predicate

/-- Whether a type meets the condition. A type of which nothing is known meets none, not even a
negated one: it is no evidence that a capability is missing. -/
def holds (predicate : Predicate) (table : CapabilityTable) (model : Model) (type : StaticType) :
    Bool :=
  !type.isUnknown &&
    match predicate with
    | .has capability => table.has model type capability
    | .lacks capability => !table.has model type capability
    | .isArray => type.isArray
    | .isNotArray => !type.isArray

def all : List Predicate :=
  Capability.all.map .has ++ Capability.all.map .lacks ++ [.isArray, .isNotArray]

def display : Predicate → String
  | .has capability => "is " ++ capability.name
  | .lacks capability => "is not " ++ capability.name
  | .isArray => "is an array"
  | .isNotArray => "is not an array"

end Predicate

end CostlyCalls
