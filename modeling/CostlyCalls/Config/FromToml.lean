import CostlyCalls.Config
import CostlyCalls.Toml.Document

/-!
# Reading configurations

Configurations from TOML. Sections and keys that are left off have their defaults, and keys that
mean nothing are passed over.
-/

set_option autoImplicit false

namespace CostlyCalls

open Toml.Value

def Setting.ofToml? (v : Toml.Value) : Option Setting := (name? v).bind Setting.ofName?

def OutputConfig.ofToml? (v : Toml.Value) : Option OutputConfig := do
  let [format, color] ← fields? ["format", "color"] v | none
  let default : OutputConfig := {}
  return ⟨← defaulted? default.format text? format, ← defaulted? default.color text? color⟩

def CapabilityNames.ofToml? (v : Toml.Value) : Option CapabilityNames := do
  let [iterable, countable, indexed] ← fields? ["iterable", "countable", "indexed"] v | none
  let default : CapabilityNames := {}
  return ⟨← defaulted? default.iterable text? iterable,
    ← defaulted? default.countable text? countable, ← defaulted? default.indexed text? indexed⟩

def SemanticsConfig.ofToml? (v : Toml.Value) : Option SemanticsConfig := do
  let [facade, capabilities] ← fields? ["facade", "capabilities"] v | none
  let default : SemanticsConfig := {}
  return ⟨← defaulted? default.facade text? facade,
    ← defaulted? default.capabilities CapabilityNames.ofToml? capabilities⟩

namespace Config

def rulesOfToml? : Toml.Value → Option (List (String × Setting))
  | .table entries => entries.mapM fun e => do return (e.1, ← Setting.ofToml? e.2)
  | _ => none

def ofToml? (v : Toml.Value) : Option Config := do
  let [rules, output, semantics] ← fields? ["rules", "output", "semantics"] v | none
  return ⟨← defaulted? [] rulesOfToml? rules, ← defaulted? {} OutputConfig.ofToml? output,
    ← defaulted? {} SemanticsConfig.ofToml? semantics⟩

inductive Fault
  | malformed
  | ambiguous (ambiguity : Ambiguity)
  deriving DecidableEq, Repr

def parse (text : String) : Logged (Except Fault Config) :=
  match (Toml.parse? text).bind ofToml? with
  | none => ⟨.error .malformed, []⟩
  | some config => config.validate.map (·.mapError .ambiguous)

end Config

end CostlyCalls
