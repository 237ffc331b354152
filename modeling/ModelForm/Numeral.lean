/-!
# Numerals

The decimal numerals of number literals, and which of them stand for two or for one half once they
are rounded to a binary floating-point number of 53 bits.

A numeral is an optional sign, digits with at most one point among or around them, and an optional
power of ten. Rounding goes to the nearest number of 53 bits, and from the middle to the one with
an even last bit. Both powers of two below have an even last bit, so the middles on both sides
count; the neighbour above is twice as far away as the one below.
-/

namespace ModelForm

/-- A decimal numeral: whether it has a minus sign, its digits without leading zeros, and the power
of ten of the last digit. -/
structure Numeral where
  negative : Bool
  digits : List Char
  exponent : Int
  deriving DecidableEq, Repr

namespace Numeral

/-! ## Reading -/

def natOfDigits (digits : List Char) : Nat :=
  digits.foldl (fun n c => 10 * n + (c.toNat - '0'.toNat)) 0

/-- Takes a sign off the front; a minus is true. -/
def takeSign : List Char → Bool × List Char
  | '-' :: rest => (true, rest)
  | '+' :: rest => (false, rest)
  | cs          => (false, cs)

/-- Reads the power of ten at the end of a numeral. No power is the power zero. -/
def readPower? : List Char → Option Int
  | [] => some 0
  | c :: cs =>
    if c = 'e' ∨ c = 'E' then
      let (negative, digits) := takeSign cs
      if digits ≠ [] ∧ digits.all Char.isDigit then
        some (if negative then -(natOfDigits digits : Int) else natOfDigits digits)
      else
        none
    else
      none

/-- Takes a point and the digits behind it off the front, if a point is there. -/
def takeFraction : List Char → List Char × List Char
  | '.' :: rest => (rest.takeWhile Char.isDigit, rest.dropWhile Char.isDigit)
  | cs          => ([], cs)

/-- Reads a numeral. There has to be a digit before or behind the point. -/
def read? (text : String) : Option Numeral := do
  let (negative, unsigned) := takeSign text.toList
  let whole := unsigned.takeWhile Char.isDigit
  let (fraction, rest) := takeFraction (unsigned.dropWhile Char.isDigit)
  if whole.isEmpty && fraction.isEmpty then
    none
  let power ← readPower? rest
  return ⟨negative, (whole ++ fraction).dropWhile (· == '0'), power - fraction.length⟩

/-! ## Rounding -/

/-- The position of the first digit, counted from the point: the number lies between a tenth of this
power of ten and the power itself. -/
def magnitude (n : Numeral) : Int := n.digits.length + n.exponent

/-- The number as a fraction, without its sign. -/
def fraction (n : Numeral) : Nat × Nat :=
  (natOfDigits n.digits * Nat.pow 10 n.exponent.toNat, Nat.pow 10 (-n.exponent).toNat)

/-- Whether a fraction rounds to two: it lies between the middles to the neighbours of two. -/
def roundsToTwo (q : Nat × Nat) : Bool :=
  (Nat.pow 2 54 - 1) * q.2 ≤ q.1 * Nat.pow 2 53 && q.1 * Nat.pow 2 52 ≤ (Nat.pow 2 53 + 1) * q.2

/-- Whether the numeral stands for two. A number that rounds to two has its first digit right before
the point. -/
def isTwo (n : Numeral) : Bool := !n.negative && n.magnitude == 1 && roundsToTwo n.fraction

/-- Whether the numeral stands for one half. A number that rounds to one half has its first digit
right behind the point, and four times the number rounds to two. -/
def isHalf (n : Numeral) : Bool :=
  !n.negative && n.magnitude == 0 && roundsToTwo (4 * n.fraction.1, n.fraction.2)

end Numeral

end ModelForm
