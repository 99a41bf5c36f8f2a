import CostlyCalls.Text.Bytes

/-!
# Rule identifiers

An identifier is a 16-bit number. It is written as three letters and at least four digits, and
read back from those letters in any case followed by exactly four digits. A text is read by its
bytes.
-/

set_option autoImplicit false

namespace CostlyCalls

structure RuleId where
  number : UInt16
  deriving DecidableEq, Repr

namespace RuleId

def letters : String := "COL"

def maxNumber : Nat := 9999

def isFourDigit (id : RuleId) : Bool := id.number.toNat ≤ maxNumber

def paddedDigits (n : Nat) : List Char :=
  let digits := Nat.toDigits 10 n
  List.replicate (4 - digits.length) '0' ++ digits

def toText (id : RuleId) : String :=
  letters ++ String.ofList (paddedDigits id.number.toNat)

inductive Fault
  | letters (text : String)
  | digits (text : String)
  | number (text : String)
  deriving DecidableEq, Repr

def Fault.message : Fault → String
  | .letters text => "Rule id '" ++ text ++ "' must start with " ++ RuleId.letters
  | .digits text =>
    "Rule id '" ++ text ++ "' must be " ++ RuleId.letters ++ " followed by four digits"
  | .number text =>
    "Invalid rule id '" ++ text ++ "': number too large to fit in target type"

def isDigitByte (b : UInt8) : Bool := 48 ≤ b && b ≤ 57

def digitsValue (ds : List UInt8) : Nat := ds.foldl (fun n d => 10 * n + (d.toNat - 48)) 0

def number? (ds : List UInt8) : Option UInt16 :=
  if digitsValue ds < UInt16.size then some (digitsValue ds).toUInt16 else none

def lowerByte (b : UInt8) : UInt8 := if 65 ≤ b ∧ b ≤ 90 then b + 32 else b

def isLetters (bs : List UInt8) : Bool :=
  bs.map lowerByte == (Text.bytes letters).map lowerByte

theorem isBoundary_of_isLetters {bs head : List UInt8} {offset : Nat}
    (hHead : (Text.before? bs offset).filter isLetters = some head) :
    Text.isBoundary bs offset = true :=
  (Text.before?_eq_some_iff.1 (Option.eq_some_of_filter_eq_some hHead)).1

/-- Read an identifier. The letters are tested before the digits. -/
def parse (text : String) : Except Fault RuleId :=
  let bs := Text.bytes text
  match hHead : (Text.before? bs letters.utf8ByteSize).filter isLetters with
  | none => .error (.letters text)
  | some _ =>
    let digits := Text.behind bs letters.utf8ByteSize (isBoundary_of_isLetters hHead)
    if digits.length = 4 ∧ digits.all isDigitByte then
      match number? digits with
      | some number => .ok ⟨number⟩
      | none => .error (.number text)
    else
      .error (.digits text)

def parse? (text : String) : Option RuleId := (parse text).toOption

end RuleId

end CostlyCalls
