import CostlyCalls.Text.Blank

/-!
# Capabilities

A capability is a trait of a collection type, defined by one well-known interface. A table assigns
every capability its interface; the names must not be blank, and no two may be equal.
-/

set_option autoImplicit false

namespace CostlyCalls

inductive Capability
  | iterable
  | countable
  | indexed
  deriving DecidableEq, Repr

namespace Capability

/-- Every capability, in the order in which tables are checked. -/
def all : List Capability := [.iterable, .countable, .indexed]

def name : Capability → String
  | .iterable => "iterable"
  | .countable => "countable"
  | .indexed => "indexed"

def defaultInterface : Capability → String
  | .iterable => "System.Collections.IEnumerable"
  | .countable => "System.Collections.ICollection"
  | .indexed => "System.Collections.IList"

def ofName? (text : String) : Option Capability := all.find? (fun c => c.name == text)

end Capability

structure CapabilityNames where
  iterable : String := Capability.iterable.defaultInterface
  countable : String := Capability.countable.defaultInterface
  indexed : String := Capability.indexed.defaultInterface
  deriving DecidableEq, Repr

namespace CapabilityNames

def interface (names : CapabilityNames) : Capability → String
  | .iterable => names.iterable
  | .countable => names.countable
  | .indexed => names.indexed

inductive Fault
  | blank (capability : Capability)
  | shared (first second : Capability) (interface : String)
  deriving DecidableEq, Repr

/-- The first fault among `capabilities`: a capability is refused for a blank name, and then for a
name that a later capability has too. -/
def faultIn? (names : CapabilityNames) : List Capability → Option Fault
  | [] => none
  | first :: later =>
    if Text.isBlankText (names.interface first) then some (.blank first)
    else
      match later.find? (fun second => names.interface second == names.interface first) with
      | some second => some (.shared first second (names.interface first))
      | none => names.faultIn? later

def fault? (names : CapabilityNames) : Option Fault := names.faultIn? Capability.all

end CapabilityNames

structure CapabilityTable where
  names : CapabilityNames
  sound : names.fault? = none

namespace CapabilityTable

def ofNames (names : CapabilityNames) : Except CapabilityNames.Fault CapabilityTable :=
  match h : names.fault? with
  | some fault => .error fault
  | none => .ok ⟨names, h⟩

def interface (table : CapabilityTable) (capability : Capability) : String :=
  table.names.interface capability

theorem ofNames_eq_ok_iff {names : CapabilityNames} :
    (∃ table, ofNames names = .ok table) ↔ names.fault? = none := by
  unfold ofNames
  split <;> simp_all

end CapabilityTable

end CostlyCalls
