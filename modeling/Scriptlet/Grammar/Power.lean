import Scriptlet.Expr
import Scriptlet.Token

/-!
# How tightly operators bind

The operators in layers, from the loosest to the tightest. An expression in a
context of some power takes in only operators that bind tighter.
-/

namespace Scriptlet

/-- The layers of operators, loosest first. -/
inductive Power where
  | lowest
  | or
  | and
  | equality
  | relational
  | additive
  | multiplicative
  | unary
  | exponent
  | primary
  deriving DecidableEq, Repr

namespace Power

/-- The place of a layer. -/
def rank : Power → Nat
  | .lowest => 0
  | .or => 1
  | .and => 2
  | .equality => 3
  | .relational => 4
  | .additive => 5
  | .multiplicative => 6
  | .unary => 7
  | .exponent => 8
  | .primary => 9

/-- Whether the second power binds tighter than the first. -/
def looserThan (p q : Power) : Bool := p.rank < q.rank

end Power

namespace TokenKind

/-- How tightly an operator between two operands binds. -/
def power? : TokenKind → Option Power
  | .or => some .or
  | .and => some .and
  | .equals => some .equality
  | .less => some .relational
  | .plus | .dash => some .additive
  | .star | .slash => some .multiplicative
  | .caret => some .exponent
  | _ => none

/-- The operator between two operands that a token writes. -/
def binaryOp? : TokenKind → Option BinaryOp
  | .plus => some .add
  | .dash => some .sub
  | .star => some .mul
  | .slash => some .div
  | .caret => some .pow
  | .and => some .and
  | .or => some .or
  | .less => some .less
  | .equals => some .equal
  | _ => none

/-- The operator before an operand that a token writes. -/
def unaryOp? : TokenKind → Option UnaryOp
  | .dash => some .negate
  | .not => some .not
  | _ => none

end TokenKind
end Scriptlet
