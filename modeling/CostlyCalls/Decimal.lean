/-!
# Decimal magnitudes

Whether a decimal numeral is too large for a double-precision number. The bound is the midpoint
between the largest finite double and the next power of two: from there on, rounding to nearest
leaves the finite range. `overflows` compares the exact value with the bound. `productOverflows`
compares a product of two doubles with it, the leading digits in a word and a power of ten; near the
bound the two may differ.
-/

set_option autoImplicit false

namespace CostlyCalls.Decimal

/-- The least natural number that is not rounded to a finite double. -/
def doubleBound : Nat := Nat.pow 2 1024 - Nat.pow 2 970

/-- Whether `coefficient * 10 ^ exponent` is too large for a double. The number of digits settles
all numerals but those near the bound, so no large power is computed for an extreme exponent. -/
def overflows (coefficient : Nat) (exponent : Int) : Bool :=
  if coefficient = 0 then false
  else
    let magnitude : Int := (Nat.toDigits 10 coefficient).length + exponent
    if 309 < magnitude then true
    else if magnitude < 309 then false
    else if 0 ≤ exponent then decide (doubleBound ≤ coefficient * Nat.pow 10 exponent.toNat)
    else decide (doubleBound * Nat.pow 10 (-exponent).toNat ≤ coefficient)

def wordLimit : Nat := Nat.pow 2 64 - 1

def leading (limit n : Nat) : Nat × Nat :=
  if n ≤ limit then (n, 0)
  else
    match leading limit (n / 10) with
    | (word, rest) => (word, rest + 1)
termination_by n
decreasing_by omega

/-- The nearest number of at most 53 significant bits; a tie goes to the even one. -/
def nearest (n : Nat) : Nat :=
  if n < Nat.pow 2 53 then n
  else
    let unit := Nat.pow 2 (n.log2 - 52)
    let lower := n / unit
    let rest := n % unit
    if 2 * rest < unit ∨ (2 * rest = unit ∧ lower % 2 = 0) then lower * unit
    else (lower + 1) * unit

def powerLimit : Nat := 308

/-- Whether a word times a power of ten is too large when both are rounded to doubles first. -/
def productOverflows (word : Nat) (exponent : Int) : Bool :=
  if word = 0 ∨ exponent ≤ 0 then false
  else if (powerLimit : Int) < exponent then true
  else decide (doubleBound ≤ nearest word * nearest (Nat.pow 10 exponent.toNat))

/-- Whether a numeral is too large when it is read as a word times a power of ten. The word takes
the digits before the point that fit, and then those of the `places` behind it that still fit. -/
def wordOverflows (coefficient places : Nat) (exponent : Int) : Bool :=
  let whole := leading wordLimit (coefficient / Nat.pow 10 places)
  let word :=
    leading wordLimit (whole.1 * Nat.pow 10 places + coefficient % Nat.pow 10 places)
  productOverflows word.1 (exponent + whole.2 + word.2 - places)

theorem leading_of_le {limit n : Nat} (hn : n ≤ limit) : leading limit n = (n, 0) := by
  rw [leading, if_pos hn]

theorem wordOverflows_of_le {n : Nat} (hn : n ≤ wordLimit) : wordOverflows n 0 0 = false := by
  have hWhole : n / Nat.pow 10 0 = n := Nat.div_one n
  have hRest : n * Nat.pow 10 0 + n % Nat.pow 10 0 = n := by
    show n * 1 + n % 1 = n
    omega
  simp only [wordOverflows, hWhole, leading_of_le hn, hRest, productOverflows]
  simp

end CostlyCalls.Decimal
