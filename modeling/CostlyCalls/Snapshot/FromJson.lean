import CostlyCalls.Json.Fields
import CostlyCalls.RuleId
import CostlyCalls.Severity
import CostlyCalls.Snapshot

/-!
# Reading snapshots

Snapshots, static types and symbols from JSON. Values that are read are checked in full: their
nesting is bounded, their strings are readable and their numbers are not too large. Members of a
snapshot, a type entry or a span that are no fields are not looked at.
-/

set_option autoImplicit false

namespace CostlyCalls

open Json

namespace StaticType

def tags : List String := ["array", "named", "type_parameter", "dynamic", "error"]

def ofJson? : Nat → Bool → Value → Option StaticType
  | 0, _, _ => none
  | room + 1, indexed, v => do
    let (tag, content) ← tagged? indexed tags v
    match tag with
    | "array" =>
      let [element] ← fields? ["element"] content | none
      .array <$> required? (ofJson? room true) element
    | "named" =>
      let [name] ← fields? ["name"] content | none
      .named <$> required? text? name
    | "type_parameter" =>
      let [name] ← fields? ["name"] content | none
      .parameter <$> required? text? name
    | "dynamic" => (fun _ => .dynamic) <$> unit? content
    | _ => (fun _ => .unresolved) <$> unit? content

def read? (room : Nat) (v : Value) : Option StaticType :=
  if v.isSound room then ofJson? room false v else none

def parse? (text : String) : Option StaticType := (Json.parse? text).bind (read? depthLimit)

end StaticType

namespace Symbol

def tags : List String := ["method", "field", "property", "local", "parameter"]

def roleOf? : String → Option Role
  | "field" => some .field
  | "property" => some .property
  | "local" => some .localVariable
  | "parameter" => some .parameter
  | _ => none

def ofJson? (room : Nat) (v : Value) : Option Symbol := do
  let (tag, content) ← tagged? false tags v
  match roleOf? tag with
  | some role =>
    let [name, type] ← fields? ["name", "type"] content | none
    return .typed role (← required? text? name) (← required? (StaticType.ofJson? room true) type)
  | none =>
    let [name, containingType, parameterCount, returnType] ←
      fields? ["name", "containing_type", "parameter_count", "return_type"] content | none
    return .method {
      name := ← required? text? name
      containingType := ← optional? text? containingType
      parameterCount := ← defaulted? 0 uint64? parameterCount
      returnType := ← optional? (StaticType.ofJson? room true) returnType }

def read? (room : Nat) (v : Value) : Option Symbol :=
  if v.isSound room then ofJson? room v else none

def parse? (text : String) : Option Symbol := (Json.parse? text).bind (read? depthLimit)

end Symbol

def Span.ofJson? (v : Value) : Option Span := do
  let [line, column, endLine, endColumn] ←
    fields? ["line", "column", "end_line", "end_column"] v | none
  return {
    line := ← required? uint64? line
    column := ← required? uint64? column
    endLine := ← optional? uint64? endLine
    endColumn := ← optional? uint64? endColumn }

def NodeId.ofJson? (v : Value) : Option NodeId := (uint32? v).map NodeId.mk

def TypeEntry.ofJson? (v : Value) : Option TypeEntry := do
  let [interfaces, base] ← fields? ["interfaces", "base"] v | none
  return {
    interfaces := ← defaulted? [] (list? text?) interfaces
    base := ← optional? text? base }

def TypeTable.ofJson? : Value → Option TypeTable
  | .object members =>
    .ofList <$> members.mapM fun m => do return (← m.1, ← TypeEntry.ofJson? m.2)
  | _ => none

/-- Read a shape. Its tag and its fields stand among other members of the node. -/
def Shape.ofMembers? (members : List Member) : Option Shape := do
  let (tag, content) ← tagged? true (Kind.all.map Kind.tag) (.object members)
  let kind ← Kind.all.find? (fun k => k.tag == tag)
  let name : Option String := do
    let [name] ← fields? ["name"] content | none
    required? text? name
  match kind with
  | .invocation =>
    let [callee, arguments] ← fields? ["callee", "arguments"] content | none
    return .invocation (← required? NodeId.ofJson? callee)
      (← defaulted? [] (list? NodeId.ofJson?) arguments)
  | .memberAccess =>
    let [receiver, _] ← fields? ["receiver", "name"] content | none
    return .memberAccess (← required? NodeId.ofJson? receiver) (← name)
  | .identifier => .identifier <$> name
  | .fieldDeclaration => .fieldDeclaration <$> name
  | .propertyDeclaration => .propertyDeclaration <$> name
  | .methodDeclaration => .methodDeclaration <$> name
  | .literal => return .literal
  | .other => return .other

namespace SnapshotNode

def ownFields : List String := ["id", "span", "text", "symbol", "type"]

def ofJson? (room : Nat) : Value → Option SnapshotNode
  | .object members => do
    guard (Value.membersSound room (members.filter fun m => m.1 ≠ some "span"))
    let [id, span, text, symbol, type] ← ownFields.mapM (fun name => unique? name members) | none
    let shape ← Shape.ofMembers?
      (members.filter fun m => ownFields.all fun name => m.1 ≠ some name)
    return {
      node := {
        id := ← required? NodeId.ofJson? id
        span := ← defaulted? {} Span.ofJson? span
        text := ← optional? text? text
        shape }
      symbol := ← optional? (Symbol.ofJson? room) symbol
      type := ← optional? (StaticType.ofJson? room false) type }
  | _ => none

end SnapshotNode

namespace Snapshot

/-- How many arrays and objects may be nested inside a member of a node: the snapshot, the list of
nodes and the node itself count too. -/
def nodeRoom : Nat := depthLimit - 3

def ofJson? (v : Value) : Option Snapshot := do
  let [file, types, nodes] ← fields? ["file", "types", "nodes"] v | none
  return {
    file := ⟨← required? text? file⟩
    types := ← defaulted? .empty TypeTable.ofJson? types
    nodes := ← defaulted? [] (list? (SnapshotNode.ofJson? nodeRoom)) nodes }

def parse? (text : String) : Option Snapshot := (Json.parse? text).bind ofJson?

end Snapshot

def Severity.ofJson? (v : Value) : Option Severity := do
  let name ← name? ["info", "warning", "error"] v
  [Severity.info, .warning, .error].find? (fun s => s.name == name)

def Capability.ofJson? (v : Value) : Option Capability := do
  let name ← name? (Capability.all.map Capability.name) v
  Capability.ofName? name

def RuleId.ofJson? (v : Value) : Option RuleId := (text? v).bind RuleId.parse?

end CostlyCalls
