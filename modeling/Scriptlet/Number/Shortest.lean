import Scriptlet.Number.Decimal

/-!
# The shortest decimal of a double

A double is written with the fewest digits that read back as the same double,
and of those with the ones nearest to it. Coarser and finer decimal grids are
tried in turn, and a grid is taken as soon as one of the two neighbours of the
double on it reads back. Every candidate is read back by `Decimal.toRank`, and
the exact decimal expansion stands at the end of the search.
-/

namespace Scriptlet.Decimal

open Binary64 (Fraction Scaled scaledOfRank infinityRank isNegative rank)

attribute [local instance] Binary64.natPow

/-- A scaled number as a quotient of integers. -/
def fractionOf (d : Scaled) : Fraction :=
  ⟨d.mantissa * 2 ^ d.exponent.toNat, 2 ^ (-d.exponent).toNat⟩

/-- The full decimal expansion of a scaled number, which is finite because
`2 ^ -n = 5 ^ n * 10 ^ -n`. -/
def exact (d : Scaled) : Decimal :=
  if 0 ≤ d.exponent then ⟨d.mantissa * 2 ^ d.exponent.toNat, 0⟩
  else ⟨d.mantissa * 5 ^ (-d.exponent).toNat, d.exponent⟩

/-- A power of ten above a positive fraction, at most two places above its first
digit. -/
def topPower (f : Fraction) : Int :=
  if f.den ≤ f.num then (Nat.toDigits 10 (f.num / f.den)).length
  else 2 - ((Nat.toDigits 10 (f.den / f.num)).length : Int)

/-- The fraction in units of `10 ^ power`. -/
def inUnits (f : Fraction) (power : Int) : Fraction :=
  ⟨f.num * 10 ^ (-power).toNat, f.den * 10 ^ power.toNat⟩

/-- The multiple of `10 ^ power` that reads back as the double of rank `r`, whose
exact value is `f`: the nearer one if both neighbours do, the upper one at a tie. -/
def onGrid? (r : Nat) (f : Fraction) (power : Int) : Option Decimal :=
  let units := inUnits f power
  let lower : Decimal := ⟨units.num / units.den, power⟩
  let upper : Decimal := ⟨units.num / units.den + 1, power⟩
  let nearLower := 2 * (units.num % units.den) < units.den
  if lower.toRank = r ∧ (nearLower ∨ upper.toRank ≠ r) then some lower
  else if upper.toRank = r then some upper
  else none

/-- The first grid that holds a decimal for the double, from `10 ^ power` down
over `count` grids. -/
def search (r : Nat) (f : Fraction) (power : Int) : (count : Nat) → Option Decimal
  | 0 => none
  | count + 1 =>
    match onGrid? r f power with
    | some d => some d
    | none => search r f (power - 1) count

/-- The shortest decimal of the finite double of rank `r`. Seventeen digits are
always enough, and the grids above the first digit add two to their number. -/
def shortest (r : Nat) : Decimal :=
  if r = 0 then ⟨0, 0⟩
  else
    let value := scaledOfRank r
    let f := fractionOf value
    (search r f (topPower f) 19).getD (exact value)

/-- Writes a decimal without a power of ten: zeros fill up to the point, and a
point stands only before digits. -/
def plain (d : Decimal) : List Char :=
  let digits := Nat.toDigits 10 d.coefficient
  if 0 ≤ d.power then
    digits ++ List.replicate d.power.toNat '0'
  else
    let places := (-d.power).toNat
    let padded := List.replicate (places + 1 - digits.length) '0' ++ digits
    padded.take (padded.length - places) ++ '.' :: padded.drop (padded.length - places)

/-- The magnitude of a finite double in plain notation. -/
def writeMagnitude (r : Nat) : List Char := (shortest r).plain

/-- A finite double in plain notation, with a sign if it is negative. -/
def write (x : Float) : List Char :=
  (if isNegative x then ['-'] else []) ++ writeMagnitude (rank x)

end Scriptlet.Decimal
