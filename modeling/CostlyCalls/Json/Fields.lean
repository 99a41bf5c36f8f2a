import CostlyCalls.Json.Reader

/-!
# Records in JSON

A record is written as an object with a member for every field, or as an array of its fields in
order. In an object a field may stand only once and members that are no fields are passed over; in
an array the last fields may be left off. A choice between several records carries a tag: a member
of its own in an object, the first item of an array.
-/

set_option autoImplicit false

namespace CostlyCalls.Json

def depthLimit : Nat := 127

def valuesOf (key : String) (members : List Member) : List Value :=
  members.filterMap fun m => if m.1 = some key then some m.2 else none

/-- The value under a key, which may be missing; refused if the key is repeated. -/
def unique? (key : String) (members : List Member) : Option (Option Value) :=
  match valuesOf key members with
  | [] => some none
  | [v] => some (some v)
  | _ => none

def fields? (names : List String) : Value → Option (List (Option Value))
  | .object members =>
    if members.all (fun m => m.1.isSome) then names.mapM (fun name => unique? name members)
    else none
  | .array items =>
    if items.length ≤ names.length then
      some (items.map some ++ List.replicate (names.length - items.length) none)
    else none
  | _ => none

def required? {α : Type} (decode : Value → Option α) (field : Option Value) : Option α :=
  field.bind decode

/-- A field that may be missing or null. -/
def optional? {α : Type} (decode : Value → Option α) : Option Value → Option (Option α)
  | none | some .null => some none
  | some v => (decode v).map some

/-- A field that may be missing, but not null. -/
def defaulted? {α : Type} (default : α) (decode : Value → Option α) : Option Value → Option α
  | none => some default
  | some v => decode v

def text? : Value → Option String
  | .string s => s
  | _ => none

def natBelow? (bound : Nat) : Value → Option Nat
  | .number (.natural n) => if n < bound then some n else none
  | _ => none

def uint32? (v : Value) : Option UInt32 := (natBelow? UInt32.size v).map Nat.toUInt32

def uint64? (v : Value) : Option UInt64 := (natBelow? UInt64.size v).map Nat.toUInt64

def list? {α : Type} (decode : Value → Option α) : Value → Option (List α)
  | .array items => items.mapM decode
  | _ => none

def name? (names : List String) : Value → Option String
  | .string (some s) => if s ∈ names then some s else none
  | .object [(some s, .null)] => if s ∈ names then some s else none
  | _ => none

/-- A tag. Where `indexed`, its position among the tags may stand for it. -/
def tag? (indexed : Bool) (tags : List String) : Value → Option String
  | .string (some s) => if s ∈ tags then some s else none
  | .number (.natural n) => if indexed then tags[n]? else none
  | _ => none

def tagKey : String := "kind"

def tagged? (indexed : Bool) (tags : List String) : Value → Option (String × Value)
  | .object members => do
    let tag ← (← unique? tagKey members).bind (tag? indexed tags)
    return (tag, .object (members.filter fun m => m.1 ≠ some tagKey))
  | .array (first :: rest) => do
    let tag ← tag? indexed tags first
    return (tag, .array rest)
  | _ => none

def unit? : Value → Option Unit
  | .object _ | .array [] => some ()
  | _ => none

end CostlyCalls.Json
