/-!
# The double nearest to a decimal

A floating-point number is held as the 64 bits of its binary interchange format. This
file rounds an exact decimal `digits · 10 ^ exponent` to the nearest of these numbers,
a tie going to the even neighbour, by exact arithmetic on natural numbers: the decimal
is written as a quotient, the quotient is scaled by the power of two that leaves 53
significant bits (fewer among the subnormal numbers), and the scaled quotient is
rounded to an integer.

The bits then need no case distinction. With `q` the rounded integer and `2 ^ (s - 1074)`
the weight of its last bit, `s · 2 ^ 52 + q` are the bits of the result: the leading bit
of a normal `q` adds one to the exponent field, a carry out of `q` adds another, and a
subnormal `q`, for which `s` is zero, stands alone.
-/

namespace WorkspaceFacts

/-- A floating-point number in 64 bits. -/
structure Binary64 where
  /-- The bits, sign first. -/
  bits : UInt64
  deriving DecidableEq

namespace Binary64

/-- The bits of positive infinity: the exponent field is full and the fraction empty. -/
def infinityBits : Nat := 0x7FF0000000000000

/-- The weight of the sign bit. -/
def signBit : Nat := 0x8000000000000000

/-- The number with a given sign and the given bits below the sign. -/
def ofMagnitude (negative : Bool) (magnitude : Nat) : Binary64 :=
  ⟨UInt64.ofNat (if negative then signBit + magnitude else magnitude)⟩

/-- Infinity of either sign. -/
def infinity (negative : Bool) : Binary64 := ofMagnitude negative infinityBits

/-- The one value that stands for “not a number”. -/
def nan : Binary64 := ⟨0x7FF8000000000000⟩

/-- Whether the number is “not a number”: its exponent field is full and its fraction
is not empty. -/
def isNaN (x : Binary64) : Bool := x.bits.toNat % signBit > infinityBits

/-- The integer nearest to `num / den`, a tie going to the even one. -/
def roundHalfEven (num den : Nat) : Nat :=
  let quotient := num / den
  let twice := 2 * (num % den)
  if twice < den then quotient
  else if twice = den then quotient + quotient % 2
  else quotient + 1

/-- The scale at which `num / den` is rounded: `s`, such that the last bit kept has the
weight `2 ^ (s - 1074)`. The quotient has its leading bit at `2 ^ k`, the last of 53 bits
is at `2 ^ (k - 52)`, and no bit lies below `2 ^ (-1074)`. -/
def scale (num den : Nat) : Nat :=
  let k : Int := (Nat.log2 num : Int) - Nat.log2 den
  let below := if k ≥ 0 then num < den * Nat.pow 2 k.toNat else num * Nat.pow 2 (-k).toNat < den
  ((if below then k - 1 else k) + 1022).toNat

/-- The bits of the number nearest to the positive quotient `num / den`, or those of
infinity when it is out of range. -/
def ofQuotient (num den : Nat) : Nat :=
  let s := scale num den
  let rounded :=
    if s ≤ 1074 then roundHalfEven (num * Nat.pow 2 (1074 - s)) den
    else roundHalfEven num (den * Nat.pow 2 (s - 1074))
  min (s * Nat.pow 2 52 + rounded) infinityBits

/-- The bits of the number nearest to `digits · 10 ^ exponent`. A decimal of at least
`10 ^ 310` is out of range, and one below `10 ^ (-330)` is nearer to zero than to any
other number, so no power of ten is formed for these. -/
def ofDecimal (digits : Nat) (exponent : Int) : Nat :=
  let top : Int := (toString digits).length + exponent
  if digits = 0 ∨ top < -330 then 0
  else if top > 310 then infinityBits
  else if exponent ≥ 0 then ofQuotient (digits * Nat.pow 10 exponent.toNat) 1
  else ofQuotient digits (Nat.pow 10 (-exponent).toNat)

end Binary64

end WorkspaceFacts
