import CostlyCalls.Decimal
import CostlyCalls.Toml.Value

/-!
# Bare TOML values

The values that are written without quotes or brackets: truth values, integers, floating-point
numbers, dates and times.
-/

set_option autoImplicit false

namespace CostlyCalls.Toml.Scalar

def digitValue (c : Char) : Nat :=
  if c.isDigit then c.toNat - '0'.toNat
  else if 'a' ≤ c ∧ c ≤ 'f' then c.toNat - 'a'.toNat + 10
  else c.toNat - 'A'.toNat + 10

def isDigitOf (base : Nat) (c : Char) : Bool :=
  (c.isDigit || ('a' ≤ c && c ≤ 'f') || ('A' ≤ c && c ≤ 'F')) && digitValue c < base

/-- Digits with the underscores between them removed; refused if there is no digit, or if an
underscore does not stand between two digits. -/
def digits? (base : Nat) : List Char → Option (List Char)
  | [] => none
  | [c] => if isDigitOf base c then some [c] else none
  | c :: '_' :: rest => if isDigitOf base c then (c :: ·) <$> digits? base rest else none
  | c :: rest => if isDigitOf base c then (c :: ·) <$> digits? base rest else none

def number (base : Nat) (ds : List Char) : Nat := ds.foldl (fun n d => base * n + digitValue d) 0

def wholeDigits? (cs : List Char) : Option (List Char) :=
  (digits? 10 cs).filter fun ds => ds.length = 1 || ds.head? ≠ some '0'

def splitSign : List Char → Bool × List Char
  | '-' :: rest => (true, rest)
  | '+' :: rest => (false, rest)
  | cs => (false, cs)

def integer? (cs : List Char) : Option Int :=
  match cs with
  | '0' :: 'x' :: rest => (fun ds => (number 16 ds : Int)) <$> digits? 16 rest
  | '0' :: 'o' :: rest => (fun ds => (number 8 ds : Int)) <$> digits? 8 rest
  | '0' :: 'b' :: rest => (fun ds => (number 2 ds : Int)) <$> digits? 2 rest
  | _ =>
    let (negative, rest) := splitSign cs
    (fun ds => if negative then -(number 10 ds : Int) else number 10 ds) <$> wholeDigits? rest

def isMark (c : Char) : Bool := c == 'e' || c == 'E'

/-- Whether `cs` is a floating-point number, and whether that is too large for a double: a fraction,
an exponent or both follow the whole part, or the number is an infinity or no number. -/
def float? (cs : List Char) : Option Bool :=
  let (_, rest) := splitSign cs
  if rest = ['i', 'n', 'f'] ∨ rest = ['n', 'a', 'n'] then some false
  else do
    let mantissa := rest.takeWhile (!isMark ·)
    let tail := rest.dropWhile (!isMark ·)
    let whole ← wholeDigits? (mantissa.takeWhile (· ≠ '.'))
    let fraction ←
      match mantissa.dropWhile (· ≠ '.') with
      | [] => some []
      | _ :: digits => digits? 10 digits
    let exponent : Int ←
      match tail with
      | [] => if fraction = [] then none else some 0
      | _ :: power =>
        let (negative, digits) := splitSign power
        (fun ds => if negative then -(number 10 ds : Int) else number 10 ds) <$> digits? 10 digits
    some (Decimal.overflows (number 10 (whole ++ fraction)) (exponent - fraction.length))

def fixed? (count : Nat) (cs : List Char) : Option (Nat × List Char) :=
  let ds := cs.take count
  if ds.length = count ∧ ds.all Char.isDigit then some (number 10 ds, cs.drop count) else none

def expect? (c : Char) : List Char → Option (List Char)
  | d :: rest => if c = d then some rest else none
  | [] => none

def isLeap (year : Nat) : Bool := year % 4 = 0 && (year % 100 ≠ 0 || year % 400 = 0)

def daysIn (year month : Nat) : Nat :=
  if month = 2 then (if isLeap year then 29 else 28)
  else if month ∈ [4, 6, 9, 11] then 30
  else 31

def afterDate? (cs : List Char) : Option (List Char) := do
  let (year, cs) ← fixed? 4 cs
  let cs ← expect? '-' cs
  let (month, cs) ← fixed? 2 cs
  let cs ← expect? '-' cs
  let (day, cs) ← fixed? 2 cs
  guard (1 ≤ month ∧ month ≤ 12 ∧ 1 ≤ day ∧ day ≤ daysIn year month)
  return cs

def afterFraction? : List Char → Option (List Char)
  | '.' :: c :: rest => if c.isDigit then some (rest.dropWhile Char.isDigit) else none
  | '.' :: [] => none
  | cs => some cs

/-- What follows a time of day at the start. The seconds may be left off, and may be a leap
second. -/
def afterTime? (cs : List Char) : Option (List Char) := do
  let (hour, cs) ← fixed? 2 cs
  let cs ← expect? ':' cs
  let (minute, cs) ← fixed? 2 cs
  guard (hour ≤ 23 ∧ minute ≤ 59)
  match cs with
  | ':' :: cs =>
    let (second, cs) ← fixed? 2 cs
    guard (second ≤ 60)
    afterFraction? cs
  | cs => return cs

def isOffset (cs : List Char) : Bool :=
  match cs with
  | [] | ['Z'] | ['z'] => true
  | sign :: rest =>
    (sign == '+' || sign == '-') &&
      ((do
        let (hour, rest) ← fixed? 2 rest
        let rest ← expect? ':' rest
        let (minute, rest) ← fixed? 2 rest
        guard (hour ≤ 23 ∧ minute ≤ 59 ∧ rest = [])) : Option Unit).isSome

def isDateMark (c : Char) : Bool := c == 'T' || c == 't' || c == ' '

def isMoment (cs : List Char) : Bool :=
  match afterDate? cs with
  | some [] => true
  | some (mark :: rest) => isDateMark mark && ((afterTime? rest).any isOffset)
  | none => afterTime? cs = some []

def value? (cs : List Char) : Option Value :=
  if cs = ['t', 'r', 'u', 'e'] then some (.bool true)
  else if cs = ['f', 'a', 'l', 's', 'e'] then some (.bool false)
  else
    match integer? cs with
    | some n => some (.integer n)
    | none =>
      match float? cs with
      | some overflows => some (.float overflows)
      | none => if isMoment cs then some .moment else none

def isBare (c : Char) : Bool :=
  c.isAlphanum || c == '_' || c == '-' || c == '+' || c == '.' || c == ':'

/-- Split a bare value from what follows it. A space belongs to it between a date and a time. -/
def split (cs : List Char) : List Char × List Char :=
  let first := cs.takeWhile isBare
  let rest := cs.dropWhile isBare
  match afterDate? first, rest with
  | some [], ' ' :: c :: more =>
    if c.isDigit then
      (first ++ ' ' :: (c :: more).takeWhile isBare, (c :: more).dropWhile isBare)
    else (first, rest)
  | _, _ => (first, rest)

def read? (cs : List Char) : Option (Value × List Char) := do
  let (bare, rest) := split cs
  return (← value? bare, rest)

end CostlyCalls.Toml.Scalar
