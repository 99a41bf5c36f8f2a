import CostlyCalls.Json.Value

/-!
# Writing JSON values

The compact form has no blanks. The indented form puts every item and member on a line of its own,
two spaces deeper than its array or object; empty arrays and objects stay closed. Strings escape
only the quote, the backslash and control characters.
-/

set_option autoImplicit false

namespace CostlyCalls.Json

def hexChar (n : Nat) : Char := Nat.digitChar n

def escapeChar (c : Char) : List Char :=
  match c with
  | '"' => ['\\', '"']
  | '\\' => ['\\', '\\']
  | '\x08' => ['\\', 'b']
  | '\x0c' => ['\\', 'f']
  | '\n' => ['\\', 'n']
  | '\r' => ['\\', 'r']
  | '\t' => ['\\', 't']
  | c =>
    if c.toNat < 0x20 then ['\\', 'u', '0', '0', hexChar (c.toNat / 16), hexChar (c.toNat % 16)]
    else [c]

/-- A string in quotes. An unreadable string is written as half of a surrogate pair. -/
def quote : Text → List Char
  | some s => '"' :: s.toList.flatMap escapeChar ++ ['"']
  | none => ['"', '\\', 'u', 'd', '8', '0', '0', '"']

def paddedDigits (width n : Nat) : List Char :=
  List.replicate (width - (Nat.toDigits 10 n).length) '0' ++ Nat.toDigits 10 n

def fractionChars (coefficient places : Nat) : List Char :=
  if places = 0 then [] else '.' :: paddedDigits places (coefficient % Nat.pow 10 places)

def Numeral.chars : Numeral → List Char
  | .natural n => Nat.toDigits 10 n
  | .decimal negative coefficient places exponent =>
    (if negative then ['-'] else []) ++ Nat.toDigits 10 (coefficient / Nat.pow 10 places)
      ++ fractionChars coefficient places
      ++ 'e' :: (if exponent < 0 then ['-'] else []) ++ Nat.toDigits 10 exponent.natAbs

namespace Value

mutual

def compactChars : Value → List Char
  | .null => ['n', 'u', 'l', 'l']
  | .bool true => ['t', 'r', 'u', 'e']
  | .bool false => ['f', 'a', 'l', 's', 'e']
  | .number n => n.chars
  | .string s => quote s
  | .array items => '[' :: compactItems items ++ [']']
  | .object members => '\x7b' :: compactMembers members ++ ['\x7d']

def compactItems : List Value → List Char
  | [] => []
  | [v] => v.compactChars
  | v :: rest => v.compactChars ++ ',' :: compactItems rest

def compactMembers : List (Text × Value) → List Char
  | [] => []
  | [(key, v)] => quote key ++ ':' :: v.compactChars
  | (key, v) :: rest => quote key ++ ':' :: v.compactChars ++ ',' :: compactMembers rest

end

def compact (v : Value) : String := String.ofList v.compactChars

def newline (level : Nat) : List Char := '\n' :: List.replicate (2 * level) ' '

mutual

def prettyChars (level : Nat) : Value → List Char
  | .null => ['n', 'u', 'l', 'l']
  | .bool true => ['t', 'r', 'u', 'e']
  | .bool false => ['f', 'a', 'l', 's', 'e']
  | .number n => n.chars
  | .string s => quote s
  | .array [] => ['[', ']']
  | .array (v :: rest) => '[' :: prettyItems (level + 1) (v :: rest) ++ newline level ++ [']']
  | .object [] => ['\x7b', '\x7d']
  | .object (m :: rest) =>
    '\x7b' :: prettyMembers (level + 1) (m :: rest) ++ newline level ++ ['\x7d']

def prettyItems (level : Nat) : List Value → List Char
  | [] => []
  | [v] => newline level ++ v.prettyChars level
  | v :: rest => newline level ++ v.prettyChars level ++ ',' :: prettyItems level rest

def prettyMembers (level : Nat) : List (Text × Value) → List Char
  | [] => []
  | [(key, v)] => newline level ++ quote key ++ ':' :: ' ' :: v.prettyChars level
  | (key, v) :: rest =>
    newline level ++ quote key ++ ':' :: ' ' :: v.prettyChars level ++ ','
      :: prettyMembers level rest

end

def pretty (v : Value) : String := String.ofList (v.prettyChars 0)

end Value

end CostlyCalls.Json
