/-!
# Texts as bytes

The bytes of a text in UTF-8. They can be divided only where a character ends.
-/

set_option autoImplicit false

namespace CostlyCalls.Text

def bytes (text : String) : List UInt8 := text.toUTF8.data.toList

/-- Whether no character goes across an offset: a byte from 128 to 191 continues one. -/
def isBoundary (bs : List UInt8) (offset : Nat) : Bool :=
  match bs.drop offset with
  | [] => offset == bs.length
  | b :: _ => b < 128 || 192 ≤ b

def before? (bs : List UInt8) (offset : Nat) : Option (List UInt8) :=
  if isBoundary bs offset then some (bs.take offset) else none

def behind (bs : List UInt8) (offset : Nat) (_hOffset : isBoundary bs offset = true) :
    List UInt8 :=
  bs.drop offset

theorem before?_eq_some_iff {bs part : List UInt8} {offset : Nat} :
    before? bs offset = some part ↔ isBoundary bs offset = true ∧ bs.take offset = part := by
  simp [before?]

end CostlyCalls.Text
