import CostlyCalls.Toml.Scalar
import CostlyCalls.Toml.Text
import CostlyCalls.Toml.Tree

/-!
# TOML documents

Reading a document of TOML 1.1. A document is a sequence of lines: a key with its value, the header
of a table, or the header of the next table of an array. Only values may extend over several lines.
-/

set_option autoImplicit false

namespace CostlyCalls.Toml

def dropComment? : List Char → Option (List Char)
  | '\r' :: '\n' :: rest => some ('\n' :: rest)
  | '\n' :: rest => some ('\n' :: rest)
  | c :: rest => if isControl c then none else dropComment? rest
  | [] => some []

def lineEnd? (cs : List Char) : Option (List Char) := do
  let cs ←
    match cs.dropWhile isBlank with
    | '#' :: rest => dropComment? rest
    | cs => some cs
  match cs with
  | [] => some []
  | '\n' :: rest => some rest
  | '\r' :: '\n' :: rest => some rest
  | _ => none

def dropLines? : (comment : Bool) → List Char → Option (List Char)
  | _, [] => some []
  | _, '\r' :: '\n' :: rest => dropLines? false rest
  | _, '\n' :: rest => dropLines? false rest
  | true, c :: rest => if isControl c then none else dropLines? true rest
  | false, c :: rest =>
    if isBlank c then dropLines? false rest
    else if c = '#' then dropLines? true rest
    else some (c :: rest)

/-- What may stand between the parts of an expression: blanks only, and between brackets also line
breaks and comments. -/
inductive Gap
  | line
  | lines
  deriving DecidableEq, Repr

def Gap.drop? : Gap → List Char → Option (List Char)
  | .line, cs => some (cs.dropWhile isBlank)
  | .lines, cs => dropLines? false cs

/-- Read items up to a closing bracket. Commas divide them, and one may follow the last. Every item
takes at least one character, which `steps` counts. -/
def items? {α : Type} (close : Char) (item : List Char → Option (α × List Char)) :
    (steps : Nat) → (acc : List α) → List Char → Option (List α × List Char)
  | 0, _, _ => none
  | steps + 1, acc, cs => do
    match ← Gap.lines.drop? cs with
    | [] => none
    | c :: rest =>
      if c = close then return (acc.reverse, rest)
      else
        let (a, rest) ← item (c :: rest)
        match ← Gap.lines.drop? rest with
        | ',' :: rest => items? close item steps (a :: acc) rest
        | c :: rest => if c = close then return ((a :: acc).reverse, rest) else none
        | [] => none

def pair? (gap : Gap) (value : List Char → Option (Value × List Char)) (cs : List Char) :
    Option ((List String × Value) × List Char) := do
  let (key, rest) ← key? cs
  let rest ← Scalar.expect? '=' (← gap.drop? rest)
  let (v, rest) ← value (← gap.drop? rest)
  return ((key, v), rest)

def inlineTable? (pairs : List (List String × Value)) : Option Value := do
  let entries ← pairs.foldlM (fun entries pair => Entries.assign pair.2 .header pair.1 entries) []
  return .table (finishEntries entries)

def depthLimit : Nat := 80

def value? (steps : Nat) : (room : Nat) → List Char → Option (Value × List Char)
  | room + 1, '[' :: rest => do
    let (items, rest) ← items? ']' (value? steps room) steps [] rest
    return (.array items, rest)
  | room + 1, '\x7b' :: rest => do
    let (pairs, rest) ← items? '\x7d' (pair? .lines (value? steps room)) steps [] rest
    return (← inlineTable? pairs, rest)
  | _, cs =>
    match cs with
    | '"' :: _ | '\x27' :: _ => do
      let (s, rest) ← string? steps cs
      return (.string s, rest)
    | _ => Scalar.read? cs

structure Draft where
  entries : Entries := []
  header : List String := []

namespace Draft

def splitLast : List String → Option (List String × String)
  | [] => none
  | [last] => some ([], last)
  | key :: rest => (splitLast rest).map fun (front, last) => (key :: front, last)

def table? (draft : Draft) (key : List String) : Option Draft := do
  let (front, last) ← splitLast key
  return ⟨← draft.entries.modify (Entries.openTable last) front, key⟩

def item? (draft : Draft) (key : List String) : Option Draft := do
  let (front, last) ← splitLast key
  return ⟨← draft.entries.modify (Entries.openItem last) front, key⟩

def assign? (draft : Draft) (key : List String) (v : Value) : Option Draft := do
  return { draft with
    entries := ← draft.entries.modify (Entries.assign v .header key) draft.header }

def header? (close : List Char) (cs : List Char) : Option (List String × List Char) := do
  let (key, rest) ← key? cs
  guard (rest.take close.length = close)
  return (key, ← lineEnd? (rest.drop close.length))

def line? (draft : Draft) (steps : Nat) (cs : List Char) : Option (Draft × List Char) := do
  match cs with
  | '[' :: '[' :: rest =>
    let (key, rest) ← header? [']', ']'] rest
    return (← draft.item? key, rest)
  | '[' :: rest =>
    let (key, rest) ← header? [']'] rest
    return (← draft.table? key, rest)
  | cs =>
    let ((key, v), rest) ← pair? .line (value? steps depthLimit) cs
    return (← draft.assign? key v, ← lineEnd? rest)

def lines? : (steps : Nat) → Draft → List Char → Option Draft
  | 0, _, _ => none
  | steps + 1, draft, cs =>
    match cs.dropWhile isBlank with
    | [] => some draft
    | '\n' :: rest => lines? steps draft rest
    | '#' :: rest => (lineEnd? ('#' :: rest)).bind (lines? steps draft)
    | '\r' :: rest => (lineEnd? ('\r' :: rest)).bind (lines? steps draft)
    | cs =>
      match draft.line? (steps + 1) cs with
      | some (draft, rest) => lines? steps draft rest
      | none => none

end Draft

def dropMark : List Char → List Char
  | c :: rest => if c.toNat = 0xFEFF then rest else c :: rest
  | [] => []

def parse? (text : String) : Option Value := do
  let cs := dropMark text.toList
  let draft ← ({} : Draft).lines? (cs.length + 1) cs
  return .table (finishEntries draft.entries)

end CostlyCalls.Toml
