import CostlyCalls.Json.Token

/-!
# Reading JSON values

Values are read from tokens by a machine with an explicit stack, so the depth of a document is not
bounded here. A document is exactly one value.
-/

set_option autoImplicit false

namespace CostlyCalls.Json

/-- An array or object that is being read. The parts that are complete are in reverse. -/
inductive Frame
  | items (done : List Value)
  | members (done : List Member)
  | member (done : List Member) (key : Text)
  deriving Repr

inductive Expect
  | value
  | firstItem
  | firstKey
  | key
  | colon
  | separator
  | nothing (document : Value)
  deriving Repr

structure Reader where
  stack : List Frame
  expect : Expect
  deriving Repr

namespace Reader

def start : Reader := ⟨[], .value⟩

def deliver (v : Value) : List Frame → Option Reader
  | [] => some ⟨[], .nothing v⟩
  | .items done :: rest => some ⟨.items (v :: done) :: rest, .separator⟩
  | .member done key :: rest => some ⟨.members ((key, v) :: done) :: rest, .separator⟩
  | .members _ :: _ => none

def beginValue (stack : List Frame) : Token → Option Reader
  | .null => deliver .null stack
  | .bool b => deliver (.bool b) stack
  | .number n => deliver (.number n) stack
  | .string s => deliver (.string s) stack
  | .openArray => some ⟨.items [] :: stack, .firstItem⟩
  | .openObject => some ⟨.members [] :: stack, .firstKey⟩
  | .closeArray | .closeObject | .colon | .comma => none

def beginMember (stack : List Frame) : Token → Option Reader
  | .string key =>
    match stack with
    | .members done :: rest => some ⟨.member done key :: rest, .colon⟩
    | _ => none
  | _ => none

def close (stack : List Frame) (token : Token) : Option Reader :=
  match token, stack with
  | .closeArray, .items done :: rest => deliver (.array done.reverse) rest
  | .closeObject, .members done :: rest => deliver (.object done.reverse) rest
  | _, _ => none

def step (reader : Reader) (token : Token) : Option Reader :=
  match reader.expect with
  | .value => beginValue reader.stack token
  | .firstItem =>
    if token = .closeArray then close reader.stack token else beginValue reader.stack token
  | .firstKey =>
    if token = .closeObject then close reader.stack token else beginMember reader.stack token
  | .key => beginMember reader.stack token
  | .colon => if token = .colon then some { reader with expect := .value } else none
  | .separator =>
    if token = .comma then
      match reader.stack with
      | .items _ :: _ => some { reader with expect := .value }
      | .members _ :: _ => some { reader with expect := .key }
      | _ => none
    else close reader.stack token
  | .nothing _ => none

def run : Reader → List Token → Option Reader
  | reader, [] => some reader
  | reader, token :: rest =>
    match reader.step token with
    | some reader => run reader rest
    | none => none

def document? (reader : Reader) : Option Value :=
  match reader.expect with
  | .nothing v => some v
  | _ => none

end Reader

def ofTokens? (tokens : List Token) : Option Value :=
  (Reader.start.run tokens).bind Reader.document?

def parse? (text : String) : Option Value := (tokens? text).bind ofTokens?

end CostlyCalls.Json
