import CostlyCalls.Json.Value

/-!
# JSON tokens

The lexical level of JSON as a machine that takes one character at a time. Spaces, tabs, carriage
returns and line feeds may stand between tokens and nothing else may. Inside strings, control
characters are refused and the escapes are those of the standard; two escapes that form a surrogate
pair denote one character.
-/

set_option autoImplicit false

namespace CostlyCalls.Json

inductive Token
  | openArray
  | closeArray
  | openObject
  | closeObject
  | colon
  | comma
  | null
  | bool (b : Bool)
  | number (n : Numeral)
  | string (s : Text)
  deriving DecidableEq, Repr

inductive Piece
  | char (c : Char)
  | unit (n : Nat)
  deriving DecidableEq, Repr

namespace Piece

def isHigh (n : Nat) : Bool := 0xD800 ≤ n && n ≤ 0xDBFF

def isLow (n : Nat) : Bool := 0xDC00 ≤ n && n ≤ 0xDFFF

def pair (high low : Nat) : Char :=
  Char.ofNat (0x10000 + (high - 0xD800) * 0x400 + (low - 0xDC00))

/-- The characters that pieces denote, put in front of `acc` in reverse; absent if a half of a
surrogate pair stands alone. -/
def joinInto (acc : List Char) : List Piece → Option (List Char)
  | [] => some acc
  | .char c :: rest => joinInto (c :: acc) rest
  | .unit high :: .unit low :: rest =>
    if isHigh high then
      if isLow low then joinInto (pair high low :: acc) rest else none
    else if isLow high then none
    else joinInto (Char.ofNat high :: acc) (.unit low :: rest)
  | .unit n :: rest =>
    if isHigh n || isLow n then none else joinInto (Char.ofNat n :: acc) rest

def join (pieces : List Piece) : Text :=
  (joinInto [] pieces).map fun chars => String.ofList chars.reverse

end Piece

/-- How far a number has been read. The fields are the sign, the digits read so far as one
coefficient, how many of them follow the point, and the exponent with its sign. -/
inductive NumberPart
  | sign
  | zero (negative : Bool)
  | digits (negative : Bool) (coefficient : Nat)
  | point (negative : Bool) (coefficient : Nat)
  | fraction (negative : Bool) (coefficient places : Nat)
  | mark (negative : Bool) (coefficient places : Nat)
  | exponentSign (negative : Bool) (coefficient places : Nat) (down : Bool)
  | exponent (negative : Bool) (coefficient places : Nat) (down : Bool) (value : Nat)
  deriving DecidableEq, Repr

def digit? (c : Char) : Option Nat := if c.isDigit then some (c.toNat - '0'.toNat) else none

def hexDigit? (c : Char) : Option Nat :=
  if c.isDigit then some (c.toNat - '0'.toNat)
  else if 'a' ≤ c ∧ c ≤ 'f' then some (c.toNat - 'a'.toNat + 10)
  else if 'A' ≤ c ∧ c ≤ 'F' then some (c.toNat - 'A'.toNat + 10)
  else none

namespace NumberPart

def isMark (c : Char) : Bool := c == 'e' || c == 'E'

def next? (part : NumberPart) (c : Char) : Option NumberPart :=
  match part with
  | .sign =>
    (digit? c).map fun d => if d = 0 then .zero true else .digits true d
  | .zero negative =>
    if c = '.' then some (.point negative 0)
    else if isMark c then some (.mark negative 0 0)
    else none
  | .digits negative coefficient =>
    if c = '.' then some (.point negative coefficient)
    else if isMark c then some (.mark negative coefficient 0)
    else (digit? c).map fun d => .digits negative (10 * coefficient + d)
  | .point negative coefficient =>
    (digit? c).map fun d => .fraction negative (10 * coefficient + d) 1
  | .fraction negative coefficient places =>
    if isMark c then some (.mark negative coefficient places)
    else (digit? c).map fun d => .fraction negative (10 * coefficient + d) (places + 1)
  | .mark negative coefficient places =>
    if c = '+' then some (.exponentSign negative coefficient places false)
    else if c = '-' then some (.exponentSign negative coefficient places true)
    else (digit? c).map fun d => .exponent negative coefficient places false d
  | .exponentSign negative coefficient places down =>
    (digit? c).map fun d => .exponent negative coefficient places down d
  | .exponent negative coefficient places down value =>
    (digit? c).map fun d => .exponent negative coefficient places down (10 * value + d)

def finish? : NumberPart → Option Numeral
  | .zero false => some (.natural 0)
  | .zero true => some (.decimal true 0 0 0)
  | .digits false coefficient => some (.natural coefficient)
  | .digits true coefficient => some (.decimal true coefficient 0 0)
  | .fraction negative coefficient places => some (.decimal negative coefficient places 0)
  | .exponent negative coefficient places down value =>
    some (.decimal negative coefficient places (if down then -value else value))
  | .sign | .point .. | .mark .. | .exponentSign .. => none

end NumberPart

inductive Scan
  | between
  | word (rest : List Char) (token : Token)
  | number (part : NumberPart)
  | string (pieces : List Piece)
  | escape (pieces : List Piece)
  | unit (pieces : List Piece) (left value : Nat)
  deriving DecidableEq, Repr

namespace Scan

def isSpace (c : Char) : Bool := c == ' ' || c == '\t' || c == '\n' || c == '\r'

def start (c : Char) : Option (List Token × Scan) :=
  if isSpace c then some ([], .between)
  else
    match c with
    | '[' => some ([.openArray], .between)
    | ']' => some ([.closeArray], .between)
    | '\x7b' => some ([.openObject], .between)
    | '\x7d' => some ([.closeObject], .between)
    | ':' => some ([.colon], .between)
    | ',' => some ([.comma], .between)
    | '"' => some ([], .string [])
    | '-' => some ([], .number .sign)
    | 'n' => some ([], .word ['u', 'l', 'l'] .null)
    | 't' => some ([], .word ['r', 'u', 'e'] (.bool true))
    | 'f' => some ([], .word ['a', 'l', 's', 'e'] (.bool false))
    | c => (digit? c).map fun d =>
        ([], .number (if d = 0 then .zero false else .digits false d))

def escaped? : Char → Option Char
  | '"' => some '"'
  | '\\' => some '\\'
  | '/' => some '/'
  | 'b' => some '\x08'
  | 'f' => some '\x0c'
  | 'n' => some '\n'
  | 'r' => some '\r'
  | 't' => some '\t'
  | _ => none

/-- Read one character: the tokens that it completes, and where the machine stands then. -/
def step (scan : Scan) (c : Char) : Option (List Token × Scan) :=
  match scan with
  | .between => start c
  | .word [] _ => none
  | .word [last] token => if c = last then some ([token], .between) else none
  | .word (expected :: rest) token => if c = expected then some ([], .word rest token) else none
  | .number part =>
    match part.next? c with
    | some part => some ([], .number part)
    | none =>
      match part.finish?, start c with
      | some n, some (tokens, scan) => some (.number n :: tokens, scan)
      | _, _ => none
  | .string pieces =>
    if c = '"' then some ([.string (Piece.join pieces.reverse)], .between)
    else if c = '\\' then some ([], .escape pieces)
    else if c.toNat < 0x20 then none
    else some ([], .string (.char c :: pieces))
  | .escape pieces =>
    if c = 'u' then some ([], .unit pieces 4 0)
    else (escaped? c).map fun e => ([], .string (.char e :: pieces))
  | .unit pieces left value =>
    (hexDigit? c).map fun d =>
      if left ≤ 1 then ([], .string (.unit (16 * value + d) :: pieces))
      else ([], .unit pieces (left - 1) (16 * value + d))

def finish? : Scan → Option (List Token)
  | .between => some []
  | .number part => part.finish?.map fun n => [.number n]
  | _ => none

def run : Scan → List Token → List Char → Option (List Token)
  | scan, acc, [] => scan.finish?.map fun tokens => (tokens.reverse ++ acc).reverse
  | scan, acc, c :: rest =>
    match scan.step c with
    | some (tokens, scan) => run scan (tokens.reverse ++ acc) rest
    | none => none

end Scan

def tokens? (text : String) : Option (List Token) := Scan.run .between [] text.toList

end CostlyCalls.Json
