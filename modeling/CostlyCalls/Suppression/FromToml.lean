import CostlyCalls.Suppression
import CostlyCalls.Toml.Document

/-!
# Reading suppressions

Suppressions from TOML: a list of entries, each with a rule and perhaps a file, a line and a
justification.
-/

set_option autoImplicit false

namespace CostlyCalls.Suppression

open Toml.Value

def Raw.ofToml? (v : Toml.Value) : Option Raw := do
  let [rule, file, line, justification] ←
    fields? ["rule", "file", "line", "justification"] v | none
  return {
    rule := ← rule.bind text?
    file := ← optional? (fun v => Path.mk <$> text? v) file
    line := ← optional? uint64? line
    justification := ← optional? text? justification }

def rawsOfToml? : Toml.Value → Option (List Raw)
  | .array items => items.mapM Raw.ofToml?
  | _ => none

def documentOfToml? (v : Toml.Value) : Option (List Raw) := do
  let [entries] ← fields? ["suppress"] v | none
  defaulted? [] rawsOfToml? entries

def parseRaws? (text : String) : Option (List Raw) := (Toml.parse? text).bind documentOfToml?

def parse (text : String) (origin : Path) : Logged (Except Error (List Suppression)) :=
  match parseRaws? text with
  | none => ⟨.error (.parse origin .malformed), []⟩
  | some raws => (ofRaws origin raws).map .ok

end CostlyCalls.Suppression
