/-!
# TOML texts

Strings in their four forms, and the keys of tables.
-/

set_option autoImplicit false

namespace CostlyCalls.Toml

def isBlank (c : Char) : Bool := c == ' ' || c == '\t'

def isControl (c : Char) : Bool := (c.toNat < 0x20 && c ≠ '\t') || c.toNat == 0x7F

def hexDigit? (c : Char) : Option Nat :=
  if c.isDigit then some (c.toNat - '0'.toNat)
  else if 'a' ≤ c ∧ c ≤ 'f' then some (c.toNat - 'a'.toNat + 10)
  else if 'A' ≤ c ∧ c ≤ 'F' then some (c.toNat - 'A'.toNat + 10)
  else none

def hexChar? (ds : List Char) : Option Char := do
  let values ← ds.mapM hexDigit?
  let n := values.foldl (fun n d => 16 * n + d) 0
  if n.isValidChar then some (Char.ofNat n) else none

def escape? : List Char → Option (Char × List Char)
  | 'b' :: rest => some ('\x08', rest)
  | 't' :: rest => some ('\t', rest)
  | 'n' :: rest => some ('\n', rest)
  | 'f' :: rest => some ('\x0c', rest)
  | 'r' :: rest => some ('\r', rest)
  | 'e' :: rest => some ('\x1b', rest)
  | '"' :: rest => some ('"', rest)
  | '\\' :: rest => some ('\\', rest)
  | c :: rest => do
    let count ←
      if c = 'x' then some 2 else if c = 'u' then some 4 else if c = 'U' then some 8 else none
    let ds := rest.take count
    guard (ds.length = count)
    return (← hexChar? ds, rest.drop count)
  | [] => none

/-- Take the rest of a quoted line as it is written; `acc` holds the characters so far in reverse. A
quote behind a backslash does not end the line. -/
def rawLine? : (acc : List Char) → List Char → Option (List Char × List Char)
  | acc, '"' :: rest => some (acc.reverse, rest)
  | acc, '\\' :: c :: rest => rawLine? (c :: '\\' :: acc) rest
  | acc, c :: rest => if isControl c then none else rawLine? (c :: acc) rest
  | _, [] => none

def unescape? : (steps : Nat) → (acc : List Char) → List Char → Option (List Char)
  | _, acc, [] => some acc.reverse
  | 0, _, _ => none
  | steps + 1, acc, '\\' :: rest => do
    let (c, rest) ← escape? rest
    unescape? steps (c :: acc) rest
  | steps + 1, acc, c :: rest => unescape? steps (c :: acc) rest

def quotedLine? (cs : List Char) : Option (String × List Char) := do
  let (raw, rest) ← rawLine? [] cs
  return (String.ofList (← unescape? raw.length [] raw), rest)

def literalLine? : (acc : List Char) → List Char → Option (String × List Char)
  | acc, '\x27' :: rest => some (String.ofList acc.reverse, rest)
  | acc, c :: rest => if isControl c then none else literalLine? (c :: acc) rest
  | _, [] => none

def dropBreak : List Char → List Char
  | '\n' :: rest => rest
  | '\r' :: '\n' :: rest => rest
  | cs => cs

/-- The end of a text of several lines: three quotes, of which up to two more belong to the text. If
fewer than three stand at the start, they all belong to the text. -/
def closing? (mark : Char) (acc cs : List Char) : Option (List Char × Option (List Char)) :=
  let run := (cs.takeWhile (· == mark)).length
  if run = 0 then none
  else if run < 3 then some (List.replicate run mark ++ acc, none)
  else some (List.replicate (min run 5 - 3) mark ++ acc, some (cs.drop (min run 5)))

def endsLine (cs : List Char) : Bool :=
  match cs.dropWhile isBlank with
  | '\n' :: _ => true
  | '\r' :: '\n' :: _ => true
  | _ => false

def dropSpace : List Char → List Char
  | '\r' :: '\n' :: rest => dropSpace rest
  | c :: rest => if isBlank c || c == '\n' then dropSpace rest else c :: rest
  | [] => []

/-- Read the rest of a text of several lines, which takes at most `steps` characters. Where
`escapes`, a backslash at the end of a line drops the blanks and line breaks that follow. -/
def multiLine? (mark : Char) (escapes : Bool) :
    (steps : Nat) → (acc : List Char) → List Char → Option (String × List Char)
  | 0, _, _ => none
  | steps + 1, acc, cs =>
    match closing? mark acc cs with
    | some (acc, some rest) => some (String.ofList acc.reverse, rest)
    | some (acc, none) => multiLine? mark escapes steps acc (cs.dropWhile (· == mark))
    | none =>
      match cs with
      | [] => none
      | '\r' :: '\n' :: rest => multiLine? mark escapes steps ('\n' :: '\r' :: acc) rest
      | '\n' :: rest => multiLine? mark escapes steps ('\n' :: acc) rest
      | c :: rest =>
        if escapes && c == '\\' then
          if endsLine rest then multiLine? mark escapes steps acc (dropSpace rest)
          else do
            let (c, rest) ← escape? rest
            multiLine? mark escapes steps (c :: acc) rest
        else if isControl c then none
        else multiLine? mark escapes steps (c :: acc) rest

def string? (steps : Nat) (cs : List Char) : Option (String × List Char) :=
  match cs with
  | '"' :: '"' :: '"' :: rest => multiLine? '"' true steps [] (dropBreak rest)
  | '\x27' :: '\x27' :: '\x27' :: rest => multiLine? '\x27' false steps [] (dropBreak rest)
  | '"' :: rest => quotedLine? rest
  | '\x27' :: rest => literalLine? [] rest
  | _ => none

def isKeyChar (c : Char) : Bool := c.isAlphanum || c == '_' || c == '-'

def keyPart? (cs : List Char) : Option (String × List Char) :=
  match cs with
  | '"' :: rest => quotedLine? rest
  | '\x27' :: rest => literalLine? [] rest
  | _ =>
    let bare := cs.takeWhile isKeyChar
    if bare = [] then none else some (String.ofList bare, cs.dropWhile isKeyChar)

def keyLimit : Nat := 80

def keyParts? : (room : Nat) → List Char → Option (List String × List Char)
  | 0, _ => none
  | room + 1, cs => do
    let (part, rest) ← keyPart? (cs.dropWhile isBlank)
    match rest.dropWhile isBlank with
    | '.' :: rest =>
      let (parts, rest) ← keyParts? room rest
      return (part :: parts, rest)
    | rest => return ([part], rest)

def key? (cs : List Char) : Option (List String × List Char) := keyParts? keyLimit cs

end CostlyCalls.Toml
