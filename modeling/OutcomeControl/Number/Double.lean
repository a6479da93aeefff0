/-! Binary floating point with 53 bits of precision, held as its 64-bit word.

A finite value is `m * 2 ^ q` with `m < 2 ^ 53` and `-1074 ≤ q`. All arithmetic here is
exact on natural numbers and rounds once, to the nearest value, a tie to the even one. -/

namespace OutcomeControl

/-- A power of two. -/
def twoTo (n : Nat) : Nat := Nat.pow 2 n

/-- A power of ten. -/
def tenTo (n : Nat) : Nat := Nat.pow 10 n

/-- A double, as the word that stores it: sign, eleven bits of exponent, 52 bits of fraction. -/
structure Double where
  bits : UInt64
deriving DecidableEq

namespace Double

def isNegative (d : Double) : Bool := twoTo 63 ≤ d.bits.toNat

/-- The word without its sign. -/
def magnitude (d : Double) : Nat := d.bits.toNat % twoTo 63

/-- The magnitude of the infinities; the finite values lie below. -/
def infinity : Nat := 2047 * twoTo 52

def isFinite (d : Double) : Bool := d.magnitude < infinity

def isZero (d : Double) : Bool := d.magnitude = 0

/-- The integer `m` of a finite value `m * 2 ^ q`. -/
def significand (d : Double) : Nat :=
  if d.magnitude < twoTo 52 then d.magnitude else twoTo 52 + d.magnitude % twoTo 52

/-- By how much the `q` of a finite value `m * 2 ^ q` exceeds its least value, `-1074`. -/
def scale (d : Double) : Nat := d.magnitude / twoTo 52 - 1

/-- The size of a finite value as a fraction: numerator and denominator. -/
def ratio (d : Double) : Nat × Nat := (d.significand * twoTo d.scale, twoTo 1074)

def ofMagnitude (negative : Bool) (magnitude : Nat) : Double :=
  ⟨((if negative then twoTo 63 else 0) + magnitude).toUInt64⟩

/-- The quotient `num / den` as an integer, to the nearest, a tie to the even one. -/
def roundDiv (num den : Nat) : Nat :=
  let low := num / den
  let twice := 2 * (num % den)
  if twice < den ∨ (twice = den ∧ low % 2 = 0) then low else low + 1

/-- The magnitude of the double nearest to `num / den`. The scale is the least that leaves at most
53 bits; a significand that rounds up to 54 bits carries into the exponent by itself. -/
def nearest (num den : Nat) : Nat :=
  let whole := num * twoTo 1074 / den
  let scale := whole.log2 - 52
  min (scale * twoTo 52 + roundDiv (num * twoTo 1074) (den * twoTo scale)) infinity

/-- The double nearest to `num / den`, or to its negative. -/
def ofRatio (negative : Bool) (num den : Nat) : Double := ofMagnitude negative (nearest num den)

/-- The product with a positive double. -/
def mul (a b : Double) : Double :=
  let (an, ad) := a.ratio
  let (bn, bd) := b.ratio
  ofRatio a.isNegative (an * bn) (ad * bd)

/-- The quotient by a positive double. -/
def div (a b : Double) : Double :=
  let (an, ad) := a.ratio
  let (bn, bd) := b.ratio
  ofRatio a.isNegative (an * bd) (ad * bn)

end Double

end OutcomeControl
