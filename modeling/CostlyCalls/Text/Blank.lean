/-!
# Blank characters

The characters with the Unicode property White_Space, and the trimming of texts at both ends by
that class.
-/

set_option autoImplicit false

namespace CostlyCalls.Text

/-- Whether `c` has the Unicode property White_Space. -/
def isBlank (c : Char) : Bool :=
  let n := c.toNat
  (0x0009 ≤ n && n ≤ 0x000D) || n == 0x0020 || n == 0x0085 || n == 0x00A0 || n == 0x1680
    || (0x2000 ≤ n && n ≤ 0x200A) || n == 0x2028 || n == 0x2029 || n == 0x202F || n == 0x205F
    || n == 0x3000

/-- Whether every character of `s` is blank; the empty text is blank. -/
def isBlankText (s : String) : Bool := s.toList.all isBlank

def trimEnd (cs : List Char) : List Char := (cs.reverse.dropWhile isBlank).reverse

def trim (s : String) : String := String.ofList (trimEnd (s.toList.dropWhile isBlank))

end CostlyCalls.Text
