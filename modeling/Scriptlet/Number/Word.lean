import Scriptlet.Number.Shortest

/-!
# Numbers as 32-bit words

The bitwise operators see a number as a 32-bit word: the fraction is cut off,
the rest wraps around modulo `2 ^ 32`, and what is not a finite number is zero.
The number stays a double until it is wrapped: cutting and dividing are exact,
a negative remainder is brought up by an addition of doubles, and only then is
the word read off, whose upper half stands for the negative numbers.
-/

namespace Scriptlet.Binary64

open Decimal (fractionOf)

/-- What is left of a fraction without the whole multiples of another one. -/
def Fraction.mod (f g : Fraction) : Fraction :=
  ⟨f.num * g.den % (g.num * f.den), f.den * g.den⟩

/-- A finite double without its fraction, cut toward zero. It keeps its sign. -/
def truncate (x : Float) : Float :=
  let f := fractionOf (magnitude x)
  ofRank (isNegative x) (nearestRank ⟨f.num / f.den, 1⟩)

/-- The remainder of two finite doubles, the second one not zero. It has the
sign of the first one. -/
def remainder (x y : Float) : Float :=
  ofRank (isNegative x)
    (nearestRank ((fractionOf (magnitude x)).mod (fractionOf (magnitude y))))

/-- The remainder that is not below zero. -/
def residue (x y : Float) : Float :=
  let r := remainder x y
  if r < 0 then r + y.abs else r

/-- The signed 32-bit word of a double. -/
def toInt32 (x : Float) : Int32 :=
  if x.isFinite then (residue (truncate x) 4294967296).toUInt32.toInt32 else 0

/-- The double of a signed 32-bit word. -/
def ofInt32 (n : Int32) : Float := ofInt n.toInt

/-- Bitwise and of the words of two doubles. -/
def bitAnd (x y : Float) : Float := ofInt32 (toInt32 x &&& toInt32 y)

/-- Bitwise or of the words of two doubles. -/
def bitOr (x y : Float) : Float := ofInt32 (toInt32 x ||| toInt32 y)

end Scriptlet.Binary64
