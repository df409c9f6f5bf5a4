/-!
# Reading a decimal as a binary64 number

A decimal denotes `digits * 10 ^ scale`.  It is read as the nearest binary64
number, a tie going to the one with an even significand.  A number `m * 2 ^ k`
with `2 ^ 52 ≤ m < 2 ^ 53`, or with any `m < 2 ^ 53` at the least exponent, has
the bit pattern `(k + 1074) * 2 ^ 52 + m`; a significand that is rounded up to
`2 ^ 53` thereby carries into the exponent, and every pattern from that of
infinity on stands for infinity.
-/

namespace CheckedThrows.Binary64

/-- The quotient rounded to the nearest integer, ties to even. -/
def roundDiv (num den : Nat) : Nat :=
  let q := num / den
  let twice := 2 * (num % den)
  if twice < den then q
  else if den < twice then q + 1
  else q + q % 2

def exponentUnit : Nat := 0x10000000000000

def infinityBits : Nat := 0x7FF * exponentUnit

def belowPow (num den : Nat) (e : Int) : Bool :=
  num <<< (-e).toNat < den <<< e.toNat

/-- The bit pattern of the binary64 number nearest to `num / den`. -/
def ofRatio (num den : Nat) : Nat :=
  if num = 0 then 0
  else
    let guess : Int := (Nat.log2 num : Int) - Nat.log2 den
    let magnitude := if belowPow num den guess then guess - 1 else guess
    let k := max (magnitude - 52) (-1074)
    let m := roundDiv (num <<< (-k).toNat) (den <<< k.toNat)
    min ((k + 1074).toNat * exponentUnit + m) infinityBits

/-- The bit pattern of `digits * 10 ^ scale`.  Numbers far outside the range
are recognised by their length, so that no huge power is computed. -/
def ofDecimal (digits : Nat) (scale : Int) : Nat :=
  let length : Int := (Nat.toDigits 10 digits).length
  if digits = 0 then 0
  else if 310 < length + scale then infinityBits
  else if length + scale < -330 then 0
  else ofRatio (digits * Nat.pow 10 scale.toNat) (Nat.pow 10 (-scale).toNat)

end CheckedThrows.Binary64
