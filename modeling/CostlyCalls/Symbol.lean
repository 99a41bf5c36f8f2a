import CostlyCalls.StaticType

/-!
# Symbols

What an expression refers to or a declaration declares.
-/

set_option autoImplicit false

namespace CostlyCalls

/-- A resolved method. An extension method called on its receiver does not count the receiver
among its parameters. -/
structure Method where
  name : String
  containingType : Option String := none
  parameterCount : UInt64 := 0
  returnType : Option StaticType := none
  deriving DecidableEq, Repr

inductive Role
  | field
  | property
  | localVariable
  | parameter
  deriving DecidableEq, Repr

inductive Symbol
  | method (method : Method)
  | typed (role : Role) (name : String) (type : StaticType)
  deriving DecidableEq, Repr

namespace Symbol

def name : Symbol → String
  | .method m => m.name
  | .typed _ name _ => name

def method? : Symbol → Option Method
  | .method m => some m
  | .typed .. => none

end Symbol

end CostlyCalls
