import Scriptlet.Value

/-!
# Expressions

Expressions are trees over literals, variables and reads of input. Their text
puts every operation in parentheses, so it says nothing about precedence.
-/

namespace Scriptlet

/-- An operator with two operands. `and` and `or` work on truth values and, bit
by bit, on numbers. -/
inductive BinaryOp where
  | add
  | sub
  | mul
  | div
  | pow
  | and
  | or
  | less
  | equal
  deriving DecidableEq, Repr

/-- How an operator is written. -/
def BinaryOp.symbol : BinaryOp → String
  | .add => "+"
  | .sub => "-"
  | .mul => "*"
  | .div => "/"
  | .pow => "^"
  | .and => "&&"
  | .or => "||"
  | .less => "<"
  | .equal => "=="

/-- An operator with one operand. -/
inductive UnaryOp where
  | negate
  | not
  deriving DecidableEq, Repr

/-- How an operator is written. -/
def UnaryOp.symbol : UnaryOp → String
  | .negate => "-"
  | .not => "!"

/-- An expression. -/
inductive Expr where
  | num (x : Float)
  | bool (b : Bool)
  | var (name : String)
  | input (ty : Ty)
  | binary (op : BinaryOp) (left right : Expr)
  | unary (op : UnaryOp) (operand : Expr)
  deriving DecidableEq

namespace Expr

/-- Equality of trees whose numbers are compared as numbers. -/
def equal : Expr → Expr → Bool
  | .num x, .num y => x == y
  | .bool a, .bool b => a == b
  | .var x, .var y => x == y
  | .input s, .input t => s == t
  | .binary o l r, .binary o' l' r' => o == o' && l.equal l' && r.equal r'
  | .unary o e, .unary o' e' => o == o' && e.equal e'
  | _, _ => false

/-- The text of an expression. -/
def render : Expr → String
  | .num x => Value.renderNumber x
  | .bool b => Value.renderBool b
  | .var name => name
  | .input ty => "input<" ++ ty.name ++ ">"
  | .binary op left right =>
    "(" ++ left.render ++ " " ++ op.symbol ++ " " ++ right.render ++ ")"
  | .unary op operand => "(" ++ op.symbol ++ " " ++ operand.render ++ ")"

end Expr
end Scriptlet
