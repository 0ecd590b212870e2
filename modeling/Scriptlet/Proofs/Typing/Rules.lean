import Scriptlet.Proofs.Contract
import Scriptlet.Proofs.Scope.Frames
import Scriptlet.Proofs.Stmt.Parts
import Scriptlet.Typing

/-!
# Typing rules of the operators

The type of an operation is a function of the types of its operands, which are
found once and from left to right. The operators with two readings are no
exception: trying the second reading after the first one failed gives what one
look at both operand types gives. From this form it follows that a type depends
only on the variables that an expression mentions.
-/

namespace Scriptlet

/-- The type of an operation with one operand. -/
def UnaryOp.typing : UnaryOp → Ty → Except StaticError Ty
  | .negate, ty => do
    Ty.require .num ty
    return .num
  | .not, ty => do
    Ty.require .bool ty
    return .bool

/-- The type of an operation with two operands. `and` and `or` are about truth
values if both operands are, and otherwise about numbers. -/
def BinaryOp.typing (op : BinaryOp) (left right : Ty) : Except StaticError Ty :=
  match op with
  | .add | .sub | .mul | .div | .pow => Expr.requireBoth .num .num (.ok left) (.ok right)
  | .less | .equal => do
    Ty.require left right
    return .bool
  | .and | .or =>
    if left = .bool ∧ right = .bool then .ok .bool
    else Expr.requireBoth .num .num (.ok left) (.ok right)

namespace Expr

variable {scope scope' : Scope Ty}

theorem infer_unary (scope : Scope Ty) (op : UnaryOp) (e : Expr) :
    (Expr.unary op e).infer scope = e.infer scope >>= op.typing := by
  cases op <;> rfl

/-- Both operands are typed once, the left one first, and then the operator. -/
theorem infer_binary (scope : Scope Ty) (op : BinaryOp) (left right : Expr) :
    (Expr.binary op left right).infer scope =
      left.infer scope >>= fun l => right.infer scope >>= fun r => op.typing l r := by
  have once : ∀ operand result, requireBoth operand result (left.infer scope)
      (right.infer scope) = left.infer scope >>= fun l => right.infer scope >>= fun r =>
        requireBoth operand result (.ok l) (.ok r) := fun _ _ => rfl
  cases op with
  | add | sub | mul | div | pow => exact once .num .num
  | less | equal => rfl
  | and | or =>
      simp only [infer, once]
      cases left.infer scope with
      | error e => rfl
      | ok l =>
          cases right.infer scope with
          | error e => rfl
          | ok r => cases l <;> cases r <;> rfl

/-- An expression has the same type in scopes that agree on what it mentions. -/
theorem infer_congr (e : Expr) (same : ∀ x ∈ e.names, scope.get? x = scope'.get? x) :
    e.infer scope = e.infer scope' := by
  induction e with
  | num => rfl
  | bool => rfl
  | input => rfl
  | var x =>
      have atName : scope.get? x = scope'.get? x := same x (by simp [names])
      simp only [infer, Scope.lookup, atName]
  | unary op e ih => rw [infer_unary, infer_unary, ih same]
  | binary op left right ihl ihr =>
      rw [infer_binary, infer_binary, ihl fun x h => same x (List.mem_append_left _ h),
        ihr fun x h => same x (List.mem_append_right _ h)]

@[simp] theorem infer_push (e : Expr) (scope : Scope Ty) :
    e.infer scope.push = e.infer scope :=
  infer_congr e fun x _ => scope.get?_push x

/-- Operators find fault with types, never with names. -/
theorem unaryTyping_ne_scope (op : UnaryOp) (ty : Ty) (cause : ScopeError) :
    op.typing ty ≠ .error (.scope cause) := by
  cases op <;> cases ty <;> intro h <;> cases h

theorem binaryTyping_ne_scope (op : BinaryOp) (l r : Ty) (cause : ScopeError) :
    op.typing l r ≠ .error (.scope cause) := by
  cases op <;> cases l <;> cases r <;> intro h <;> cases h

/-- A sequence is not short of a name if neither of its steps is. -/
theorem bind_ne_scope {α β : Type} {x : Except StaticError α} {f : α → Except StaticError β}
    {cause : ScopeError} (first : x ≠ .error (.scope cause))
    (second : ∀ a, f a ≠ .error (.scope cause)) : x >>= f ≠ .error (.scope cause) := by
  cases x with
  | error e => exact fun h => first (congrArg Except.error (Except.error.inj h))
  | ok a => exact second a

/-- What has a type in one scope is not short of a name in a scope that binds
at least the same names, possibly at other types. -/
theorem infer_ne_scope {e : Expr} {ty : Ty} (typed : e.infer scope = .ok ty)
    (more : ∀ x, (scope.get? x).isSome → (scope'.get? x).isSome) (cause : ScopeError) :
    e.infer scope' ≠ .error (.scope cause) := by
  induction e generalizing ty with
  | num => intro h; cases h
  | bool => intro h; cases h
  | input => intro h; cases h
  | var x =>
      have bound : (scope.get? x).isSome := by
        cases found : scope.get? x with
        | none => simp [infer, Scope.lookup, found] at typed
        | some _ => rfl
      obtain ⟨ty', found⟩ := Option.isSome_iff_exists.mp (more x bound)
      simp [infer, Scope.lookup, found]
  | unary op e ih =>
      rw [infer_unary] at typed ⊢
      obtain ⟨operand, first, _⟩ := except_bind_eq_ok_iff.mp typed
      exact bind_ne_scope (ih first) fun operand' => unaryTyping_ne_scope op operand' cause
  | binary op left right ihl ihr =>
      rw [infer_binary] at typed ⊢
      obtain ⟨l, first, rest⟩ := except_bind_eq_ok_iff.mp typed
      obtain ⟨r, second, _⟩ := except_bind_eq_ok_iff.mp rest
      refine bind_ne_scope (ihl first) fun l' => bind_ne_scope (ihr second) fun r' => ?_
      exact binaryTyping_ne_scope op l' r' cause

end Expr
end Scriptlet
