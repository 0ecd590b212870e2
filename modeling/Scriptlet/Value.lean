import Scriptlet.Number.Shortest

/-!
# Types and values

The language has two types, and every value has exactly one of them. Numbers are
doubles. Two values are the same label of a `switch` if they are equal numbers or
equal truth values, where all values that are not a number count as one label.
-/

namespace Scriptlet

/-- A type of the language. -/
inductive Ty where
  | num
  | bool
  deriving DecidableEq, Repr

namespace Ty

/-- How a type is written in a program. -/
def name : Ty → String
  | .num => "num"
  | .bool => "bool"

/-- The type with a given name. -/
def ofName? (name : String) : Option Ty :=
  if name = "num" then some .num
  else if name = "bool" then some .bool
  else none

@[simp] theorem ofName?_name (ty : Ty) : ofName? ty.name = some ty := by
  cases ty <;> decide

end Ty

/-- A value of a running program. -/
inductive Value where
  | num (x : Float)
  | bool (b : Bool)
  deriving DecidableEq

namespace Value

/-- The type of a value. -/
def ty : Value → Ty
  | .num _ => .num
  | .bool _ => .bool

/-- Whether a condition with this value holds. A number holds unless it is zero
or not a number. -/
def truthy : Value → Bool
  | .num x => x != 0 && !x.isNaN
  | .bool b => b

/-- Equality as `==` of the language sees it: zeros of both signs are equal, and
what is not a number differs from itself. -/
def equal : Value → Value → Bool
  | .num x, .num y => x == y
  | .bool a, .bool b => a == b
  | _, _ => false

/-- Whether two values are the same label. -/
def sameKey : Value → Value → Bool
  | .num x, .num y => x == y || (x.isNaN && y.isNaN)
  | .bool a, .bool b => a == b
  | _, _ => false

/-- How a number is printed. Negative zero prints as zero. -/
def renderNumber (x : Float) : String :=
  if x.isInf then (if Binary64.isNegative x then "-Infinity" else "Infinity")
  else if x == 0 then "0"
  else if x.isNaN then "NaN"
  else String.ofList (Decimal.write x)

/-- How a truth value is printed. -/
def renderBool (b : Bool) : String := if b then "true" else "false"

/-- How a value is printed. -/
def render : Value → String
  | .num x => renderNumber x
  | .bool b => renderBool b

end Value
end Scriptlet
