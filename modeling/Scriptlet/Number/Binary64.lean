/-!
# Doubles by rank

The nonnegative doubles in increasing order are numbered 0, 1, 2, and so on up
to infinity. This rank is the lower 63 bits of the encoding, so reading and
rounding are arithmetic on natural numbers: a rank below infinity's stands for
`mantissa * 2 ^ exponent`, and `nearestRank` finds the rank next to a fraction.
-/

namespace Scriptlet.Binary64

/-- The built-in power of natural numbers. Definitions take it by name, so that a power
in them is the same one in every module, whatever algebra is imported. -/
abbrev natPow : Pow Nat Nat := instPowNat

attribute [local instance] natPow

/-- The rank of infinity. Greater ranks are not numbers. -/
def infinityRank : Nat := 2047 * 2 ^ (52 : Nat)

/-- The place of a double's magnitude among the nonnegative doubles. -/
def rank (x : Float) : Nat := x.toBits.toNat % 2 ^ (63 : Nat)

/-- Whether the sign bit is set. Negative zero is negative here. -/
def isNegative (x : Float) : Bool := 2 ^ (63 : Nat) ≤ x.toBits.toNat

/-- The double with a given sign and magnitude. -/
def ofRank (negative : Bool) (r : Nat) : Float :=
  Float.ofBits (UInt64.ofNat (if negative then 2 ^ (63 : Nat) + r else r))

/-- The number `mantissa * 2 ^ exponent`. -/
structure Scaled where
  mantissa : Nat
  exponent : Int
  deriving DecidableEq, Repr

/-- The number that a rank below infinity's stands for. The first `2 ^ 52` ranks
share the exponent of the next `2 ^ 52` and lack their leading bit. -/
def scaledOfRank (r : Nat) : Scaled :=
  if r < 2 ^ (52 : Nat) then ⟨r, -1074⟩
  else ⟨2 ^ (52 : Nat) + r % 2 ^ (52 : Nat), (r / 2 ^ (52 : Nat) : Nat) - 1075⟩

/-- The magnitude of a finite double. -/
def magnitude (x : Float) : Scaled := scaledOfRank (rank x)

/-- A nonnegative fraction. Its denominator is meant to be positive. -/
structure Fraction where
  num : Nat
  den : Nat
  deriving DecidableEq, Repr

/-- The fraction divided by `2 ^ exponent`. -/
def Fraction.shift (f : Fraction) (exponent : Int) : Fraction :=
  ⟨f.num * 2 ^ (-exponent).toNat, f.den * 2 ^ exponent.toNat⟩

/-- The integer nearest to a fraction; a half goes to the even neighbour. -/
def Fraction.round (f : Fraction) : Nat :=
  let quotient := f.num / f.den
  let rest := f.num % f.den
  if 2 * rest < f.den then quotient
  else if f.den < 2 * rest then quotient + 1
  else quotient + quotient % 2

/-- The least exponent, from -1074 on, in units of which the fraction is below
`2 ^ 53`. The two logarithms leave only two candidates. -/
def Fraction.exponent (f : Fraction) : Int :=
  let guess := max ((f.num.log2 : Int) - f.den.log2 - 53) (-1074)
  let scaled := f.shift (guess + 53)
  if scaled.num < scaled.den then guess else guess + 1

/-- The rank of the double nearest to a fraction, a half going to the even rank.
Rounding up past the last rank of an exponent gives the first of the next, and
past the greatest finite double it gives infinity. -/
def nearestRank (f : Fraction) : Nat :=
  if f.num = 0 then 0
  else
    let exponent := f.exponent
    min ((exponent + 1074).toNat * 2 ^ (52 : Nat) + (f.shift exponent).round) infinityRank

/-- The double nearest to an integer. Zero is positive. -/
def ofInt (n : Int) : Float := ofRank (n < 0) (nearestRank ⟨n.natAbs, 1⟩)

end Scriptlet.Binary64
