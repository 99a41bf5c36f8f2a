import CostlyCalls.Json.Value

/-!
# Places in JSON values

A place is reached from a value by the keys of members and the positions of items. In a record, a
member is found by its key.
-/

set_option autoImplicit false

namespace CostlyCalls.Json

inductive Place
  | member (key : String)
  | item (index : Nat)
  deriving DecidableEq, Repr

namespace Value

def below? : Value → Place → Option Value
  | .object members, .member key => members.lookup (some key)
  | .array items, .item index => items[index]?
  | _, _ => none

def at? (v : Value) : List Place → Option Value
  | [] => some v
  | place :: rest => (v.below? place).bind (·.at? rest)

def keys : Value → List Text
  | .object members => members.map Prod.fst
  | _ => []

theorem lookup_members {members : List (String × Value)} {key : String} :
    (members.map fun m => ((some m.1, m.2) : Member)).lookup (some key) = members.lookup key := by
  induction members with
  | nil => rfl
  | cons m rest ih =>
    have hKey : ((some key : Text) == some m.1) = (key == m.1) := rfl
    rw [List.map_cons, List.lookup_cons, List.lookup_cons, hKey, ih]

@[simp] theorem at?_nil (v : Value) : v.at? [] = some v := rfl

@[simp] theorem at?_record (members : List (String × Value)) (key : String) (rest : List Place) :
    (record members).at? (.member key :: rest) = (members.lookup key).bind (·.at? rest) := by
  rw [at?, record, below?, lookup_members]

@[simp] theorem at?_array (items : List Value) (index : Nat) (rest : List Place) :
    (array items).at? (.item index :: rest) = items[index]?.bind (·.at? rest) := rfl

@[simp] theorem keys_record (members : List (String × Value)) :
    (record members).keys = members.map fun m => some m.1 := by
  rw [record, keys, List.map_map]
  rfl

end Value

end CostlyCalls.Json
