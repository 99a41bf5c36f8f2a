/-!
# TOML values

The values that TOML documents denote. Of a floating-point number only its size matters here, and of
a date or a time only that it is one.
-/

set_option autoImplicit false

namespace CostlyCalls.Toml

inductive Value
  | string (s : String)
  | integer (n : Int)
  | float (overflows : Bool)
  | bool (b : Bool)
  | moment
  | array (items : List Value)
  | table (entries : List (String × Value))
  deriving Repr, Inhabited

namespace Value

def fitsWord (n : Int) : Bool := -Int.ofNat (Nat.pow 2 127) ≤ n && n < Int.ofNat (Nat.pow 2 128)

mutual

def isRepresentable : Value → Bool
  | .integer n => fitsWord n
  | .float overflows => !overflows
  | .string _ | .bool _ | .moment => true
  | .array items => areRepresentable items
  | .table entries => entriesRepresentable entries

def areRepresentable : List Value → Bool
  | [] => true
  | v :: rest => v.isRepresentable && areRepresentable rest

def entriesRepresentable : List (String × Value) → Bool
  | [] => true
  | (_, v) :: rest => v.isRepresentable && entriesRepresentable rest

end

/-- The fields of a record, written as a table or, in the order of `names`, as an array. A date or
time stands for a record without fields. -/
def fields? (names : List String) : Value → Option (List (Option Value))
  | .table entries =>
    if entriesRepresentable (entries.filter fun e => e.1 ∉ names) then
      some (names.map fun name => entries.lookup name)
    else none
  | .array items => some (names.mapIdx fun i _ => items[i]?)
  | .moment => some (names.map fun _ => none)
  | _ => none

def defaulted? {α : Type} (default : α) (decode : Value → Option α) : Option Value → Option α
  | none => some default
  | some v => decode v

def optional? {α : Type} (decode : Value → Option α) : Option Value → Option (Option α)
  | none => some none
  | some v => (decode v).map some

def text? : Value → Option String
  | .string s => some s
  | _ => none

def uint64? : Value → Option UInt64
  | .integer n => if 0 ≤ n ∧ n < UInt64.size then some n.toNat.toUInt64 else none
  | _ => none

def name? : Value → Option String
  | .string s | .table [(s, .table [])] | .table [(s, .array [])] => some s
  | _ => none

end Value

end CostlyCalls.Toml
