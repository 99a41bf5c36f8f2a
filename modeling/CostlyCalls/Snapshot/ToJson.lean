import CostlyCalls.Json.Printer
import CostlyCalls.Snapshot

/-!
# Writing snapshots

The JSON form of snapshots, static types and symbols. Tags come first, fields follow in a fixed
order, and absent optional fields are left out except in methods, which write null.
-/

set_option autoImplicit false

namespace CostlyCalls

open Json

def StaticType.toJson : StaticType → Value
  | .array element => .record [("kind", .text "array"), ("element", element.toJson)]
  | .named name => .record [("kind", .text "named"), ("name", .text name)]
  | .parameter name => .record [("kind", .text "type_parameter"), ("name", .text name)]
  | .dynamic => .record [("kind", .text "dynamic")]
  | .unresolved => .record [("kind", .text "error")]

def Role.tag : Role → String
  | .field => "field"
  | .property => "property"
  | .localVariable => "local"
  | .parameter => "parameter"

def Symbol.toJson : Symbol → Value
  | .method m => .record [
      ("kind", .text "method"), ("name", .text m.name),
      ("containing_type", .ofOption .text m.containingType),
      ("parameter_count", .nat m.parameterCount.toNat),
      ("return_type", .ofOption StaticType.toJson m.returnType)]
  | .typed role name type =>
    .record [("kind", .text role.tag), ("name", .text name), ("type", type.toJson)]

def optionalMember {α : Type} (key : String) (f : α → Value) (value : Option α) :
    List (String × Value) :=
  value.toList.map fun a => (key, f a)

def Span.toJson (span : Span) : Value :=
  .record ([("line", .nat span.line.toNat), ("column", .nat span.column.toNat)]
    ++ optionalMember "end_line" (fun n => .nat n.toNat) span.endLine
    ++ optionalMember "end_column" (fun n => .nat n.toNat) span.endColumn)

def NodeId.toJson (id : NodeId) : Value := .nat id.value.toNat

def Shape.members (shape : Shape) : List (String × Value) :=
  ("kind", .text shape.kind.tag) ::
    match shape with
    | .invocation callee arguments =>
      [("callee", callee.toJson), ("arguments", .array (arguments.map NodeId.toJson))]
    | .memberAccess receiver name => [("receiver", receiver.toJson), ("name", .text name)]
    | .identifier name | .fieldDeclaration name | .propertyDeclaration name
    | .methodDeclaration name => [("name", .text name)]
    | .literal | .other => []

def SnapshotNode.toJson (n : SnapshotNode) : Value :=
  .record ([("id", n.node.id.toJson), ("span", n.node.span.toJson)]
    ++ optionalMember "text" .text n.node.text
    ++ n.node.shape.members
    ++ optionalMember "symbol" Symbol.toJson n.symbol
    ++ optionalMember "type" StaticType.toJson n.type)

def TypeEntry.toJson (entry : TypeEntry) : Value :=
  .record ([("interfaces", .array (entry.interfaces.map .text))]
    ++ optionalMember "base" .text entry.base)

def TypeTable.toJson (table : TypeTable) : Value :=
  .record (table.entries.map fun e => (e.1, e.2.toJson))

def Snapshot.toJson (snapshot : Snapshot) : Value :=
  .record [
    ("file", .text snapshot.file.text), ("types", snapshot.types.toJson),
    ("nodes", .array (snapshot.nodes.map SnapshotNode.toJson))]

def Snapshot.serialize (snapshot : Snapshot) : String := snapshot.toJson.compact

end CostlyCalls
