import Scriptlet.Input
import Scriptlet.Number.Word
import Scriptlet.Scope
import Scriptlet.Stmt

/-!
# Evaluation

The value of an expression in a scope. Both operands of an operator are always
evaluated, the left one first, and only then are their types looked at. Reading
input is the only effect.
-/

namespace Scriptlet

namespace Value

/-- A value that must be a number. -/
def asNum : Value → Except TypeFault Float
  | .num x => .ok x
  | v => .error (.expected .num v)

/-- A value that must be a truth value. -/
def asBool : Value → Except TypeFault Bool
  | .bool b => .ok b
  | v => .error (.expected .bool v)

/-- Two values that must have one type. -/
def requireSameType (left right : Value) : Except TypeFault Unit :=
  if left.ty = right.ty then .ok () else .error (.differ left right)

end Value

/-- What an operator before its operand gives. -/
def UnaryOp.apply : UnaryOp → Value → Except TypeFault Value
  | .negate, v => do return .num (-(← v.asNum))
  | .not, v => do return .bool (!(← v.asBool))

namespace BinaryOp

/-- An operator on two numbers. -/
def onNumbers (f : Float → Float → Float) (left right : Value) : Except TypeFault Value := do
  let x ← left.asNum
  let y ← right.asNum
  return .num (f x y)

/-- An operator on two numbers or two truth values. The left operand decides. -/
def onEither (bits : Float → Float → Float) (logic : Bool → Bool → Bool) (left right : Value) :
    Except TypeFault Value :=
  match left with
  | .num x => do return .num (bits x (← right.asNum))
  | .bool a => do return .bool (logic a (← right.asBool))

/-- What an operator between two operands gives. False is less than true. -/
def apply : BinaryOp → Value → Value → Except TypeFault Value
  | .add, l, r => onNumbers (· + ·) l r
  | .sub, l, r => onNumbers (· - ·) l r
  | .mul, l, r => onNumbers (· * ·) l r
  | .div, l, r => onNumbers (· / ·) l r
  | .pow, l, r => onNumbers Float.pow l r
  | .and, l, r => onEither Binary64.bitAnd (· && ·) l r
  | .or, l, r => onEither Binary64.bitOr (· || ·) l r
  | .less, .num x, .num y => .ok (.bool (x < y))
  | .less, .bool a, .bool b => .ok (.bool (!a && b))
  | .less, l, r => .error (.differ l r)
  | .equal, l, r => do
    l.requireSameType r
    return .bool (l.equal r)

end BinaryOp

/-- The value of an expression, reading from an input source. -/
def Expr.eval {σ : Type} [InputSource σ] (scope : Scope Value) :
    Expr → Attempt RuntimeError σ Value
  | .num x => pure (.num x)
  | .bool b => pure (.bool b)
  | .var name => .query fun _ => (scope.lookup name).mapError .scope
  | .input ty => (InputSource.read ty).mapError .input
  | .unary op e => do
    let v ← e.eval scope
    Attempt.query fun _ => (op.apply v).mapError .type
  | .binary op left right => do
    let l ← left.eval scope
    let r ← right.eval scope
    Attempt.query fun _ => (op.apply l r).mapError .type

end Scriptlet
