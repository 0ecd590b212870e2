import Scriptlet.Number.Binary64

/-!
# Decimal texts of doubles

`Decimal.read?` accepts an optional sign followed by digits with an optional
point and an optional power of ten, or by a word for infinity or for no number.
The value is the double nearest to what the digits say.
-/

namespace Scriptlet

/-- The number `coefficient * 10 ^ power`. -/
structure Decimal where
  coefficient : Nat
  power : Int
  deriving DecidableEq, Repr

namespace Decimal

open Binary64 (Fraction infinityRank nearestRank ofRank)

attribute [local instance] Binary64.natPow

/-- A decimal as a quotient of integers. -/
def toFraction (d : Decimal) : Fraction :=
  ⟨d.coefficient * 10 ^ d.power.toNat, 10 ^ (-d.power).toNat⟩

/-- The rank of the nearest double. Powers of ten far outside the range of
doubles are not computed: such a decimal is zero or beyond every finite double. -/
def toRank (d : Decimal) : Nat :=
  if d.coefficient = 0 then 0
  else if 400 < d.power then infinityRank
  else if d.power + d.coefficient.log2 < -1100 then 0
  else nearestRank d.toFraction

/-- The value of a digit. -/
def digitValue (c : Char) : Nat := c.toNat - '0'.toNat

/-- The number that digits write. -/
def digitsValue (cs : List Char) : Nat := cs.foldl (fun n c => 10 * n + digitValue c) 0

/-- The number that the digits of a power of ten write. A power that has come to
`2 ^ 16` is far outside the range of doubles and stays as it is, whatever digits
follow. -/
def powerValue (cs : List Char) : Nat :=
  cs.foldl (fun n c => if n < 2 ^ (16 : Nat) then 10 * n + digitValue c else n) 0

/-- Splits off the digits at the start. -/
def spanDigits (cs : List Char) : List Char × List Char :=
  (cs.takeWhile Char.isDigit, cs.dropWhile Char.isDigit)

/-- Splits off a sign, which is negative or not, at the start. -/
def spanSign : List Char → Bool × List Char
  | '-' :: rest => (true, rest)
  | '+' :: rest => (false, rest)
  | cs => (false, cs)

/-- The power of ten after the digits: nothing, or a letter `e` and an integer. -/
def readPower? : List Char → Option Int
  | [] => some 0
  | c :: rest =>
    if c = 'e' ∨ c = 'E' then
      let (negative, digits) := spanSign rest
      if digits ≠ [] ∧ digits.all Char.isDigit then
        some (if negative then -(powerValue digits : Int) else powerValue digits)
      else none
    else none

/-- Splits off a point and the digits after it, if there is a point. -/
def spanFraction : List Char → List Char × List Char
  | '.' :: rest => spanDigits rest
  | cs => ([], cs)

/-- Digits with an optional point and an optional power of ten. At least one
digit must stand before or after the point. -/
def readDigits? (cs : List Char) : Option Decimal :=
  let (whole, rest) := spanDigits cs
  let (fraction, rest) := spanFraction rest
  if whole = [] ∧ fraction = [] then none
  else
    (readPower? rest).map fun power =>
      ⟨digitsValue (whole ++ fraction), power - fraction.length⟩

/-- A number without its sign, by rank. -/
def readMagnitude? (cs : List Char) : Option Nat :=
  let word := cs.map Char.toLower
  if word = "inf".toList ∨ word = "infinity".toList then some infinityRank
  else if word = "nan".toList then some (infinityRank + 2 ^ (51 : Nat))
  else (readDigits? cs).map toRank

/-- The double that a text writes, if it is the text of a number. -/
def read? (cs : List Char) : Option Float :=
  let (negative, rest) := spanSign cs
  (readMagnitude? rest).map (ofRank negative)

end Decimal
end Scriptlet
