import CostlyCalls.Decimal

/-!
# JSON values

The values that JSON texts denote. A string that holds half of a surrogate pair denotes no text; it
is kept as an unreadable string. Members of objects keep their order and may repeat a key.
-/

set_option autoImplicit false

namespace CostlyCalls.Json

/-- A number as written: a plain sequence of digits, or anything with a sign, a fraction or an
exponent. The coefficient holds all digits, the last `places` of them behind the point. -/
inductive Numeral
  | natural (n : Nat)
  | decimal (negative : Bool) (coefficient places : Nat) (exponent : Int)
  deriving DecidableEq, Repr

def Numeral.overflows : Numeral → Bool
  | .natural n => Decimal.wordOverflows n 0 0
  | .decimal _ coefficient places exponent => Decimal.wordOverflows coefficient places exponent

abbrev Text := Option String

inductive Value
  | null
  | bool (b : Bool)
  | number (n : Numeral)
  | string (s : Text)
  | array (items : List Value)
  | object (members : List (Text × Value))
  deriving Repr, Inhabited

abbrev Member := Text × Value

namespace Value

def text (s : String) : Value := .string (some s)

def nat (n : Nat) : Value := .number (.natural n)

def ofOption {α : Type} (f : α → Value) : Option α → Value
  | some a => f a
  | none => .null

def record (members : List (String × Value)) : Value :=
  .object (members.map fun m => (some m.1, m.2))

mutual

/-- Whether a value nests at most `room` arrays and objects, all its strings are readable, and no
number is too large. -/
def isSound (room : Nat) : Value → Bool
  | .null | .bool _ => true
  | .number n => !n.overflows
  | .string s => s.isSome
  | .array items => 0 < room && areSound (room - 1) items
  | .object members => 0 < room && membersSound (room - 1) members

def areSound (room : Nat) : List Value → Bool
  | [] => true
  | v :: rest => v.isSound room && areSound room rest

def membersSound (room : Nat) : List (Text × Value) → Bool
  | [] => true
  | (key, v) :: rest => key.isSome && v.isSound room && membersSound room rest

end

end Value

end CostlyCalls.Json
