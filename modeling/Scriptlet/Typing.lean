import Scriptlet.Attempt
import Scriptlet.Scope
import Scriptlet.Stmt

/-!
# Typing

`Expr.infer` finds the type of an expression from the types of the variables in
scope, and `Stmt.check` walks over a statement and declares as it goes. A check
that fails reports the first fault and leaves the scope as it stands then, with
the frames of its own taken away.
-/

namespace Scriptlet

/-- Requires a type to be the expected one. -/
def Ty.require (expected actual : Ty) : Except StaticError Unit :=
  if expected = actual then .ok () else .error (.mismatch expected actual)

namespace Expr

/-- Requires two operands, whose types are found before either is judged, to be
of one type. -/
def requireBoth (operand result : Ty) (left right : Except StaticError Ty) :
    Except StaticError Ty := do
  let leftTy ← left
  let rightTy ← right
  Ty.require operand leftTy
  Ty.require operand rightTy
  return result

/-- The type of an expression. The operators on bits and truth values are first
taken to be about truth values and, if that fails, about numbers. -/
def infer (scope : Scope Ty) : Expr → Except StaticError Ty
  | .num _ => .ok .num
  | .bool _ => .ok .bool
  | .var name => (scope.lookup name).mapError .scope
  | .input ty => .ok ty
  | .unary .negate e => do
    Ty.require .num (← e.infer scope)
    return .num
  | .unary .not e => do
    Ty.require .bool (← e.infer scope)
    return .bool
  | .binary op left right =>
    match op with
    | .add | .sub | .mul | .div | .pow =>
      requireBoth .num .num (left.infer scope) (right.infer scope)
    | .less | .equal => do
      let leftTy ← left.infer scope
      let rightTy ← right.infer scope
      Ty.require leftTy rightTy
      return .bool
    | .and | .or =>
      match requireBoth .bool .bool (left.infer scope) (right.infer scope) with
      | .ok ty => .ok ty
      | .error _ => requireBoth .num .num (left.infer scope) (right.infer scope)

end Expr

/-- A walk over statements in a scope of types. -/
abbrev Check : Type := Attempt StaticError (Scope Ty) Unit

namespace Check

/-- Walks in a frame of its own. -/
def within (body : Check) : Check := fun scope =>
  match scope.within body with
  | (.ok result, outer) => (result, outer)
  | (.error e, outer) => (.error (.scope e), outer)

/-- The type of an expression in the present scope. -/
def infer (e : Expr) : Attempt StaticError (Scope Ty) Ty := .query e.infer

/-- Requires a type to be the expected one. -/
def require (expected actual : Ty) : Check := .query fun _ => expected.require actual

/-- The type of a variable that is about to be assigned. -/
def assigned (name : String) : Attempt StaticError (Scope Ty) Ty := .query fun scope =>
  match scope.get? name with
  | some ty => .ok ty
  | none => .error (.scope (.undeclared name))

/-- Declares a variable in the innermost frame. -/
def declare (name : String) (ty : Ty) : Check :=
  .advance fun scope => (scope.declare name ty).mapError .scope

end Check

namespace Stmt

mutual

/-- Checks a statement. A condition must be a truth value, an assignment must
keep the type of its variable, and every label must have the type of the focus. -/
def check : Stmt → Check
  | .declare name value => do
    let ty ← Check.infer value
    Check.declare name ty
  | .assign name value => do
    let expected ← Check.assigned name
    let actual ← Check.infer value
    Check.require expected actual
  | .print value => do
    let _ ← Check.infer value
  | .block body => Check.within (checkAll body)
  | .branch condition onTrue onFalse => do
    let ty ← Check.infer condition
    Check.require .bool ty
    Check.within onTrue.check
    checkOption onFalse
  | .loop condition body => Check.within do
    let ty ← Check.infer condition
    Check.require .bool ty
    body.check
  | .switch focus ⟨cases⟩ fallback => do
    let ty ← Check.infer focus
    checkCases ty cases
    checkOption fallback

/-- Checks statements one after the other. -/
def checkAll : List Stmt → Check
  | [] => pure ()
  | s :: rest => do
    s.check
    checkAll rest

/-- Checks a statement that may be missing, in a frame of its own. -/
def checkOption : Option Stmt → Check
  | none => pure ()
  | some s => Check.within s.check

/-- Checks cases against the type of the focus, each body in a frame of its own. -/
def checkCases (ty : Ty) : List (Value × Stmt) → Check
  | [] => pure ()
  | (label, body) :: rest => do
    Check.require ty label.ty
    Check.within body.check
    checkCases ty rest

end

/-- Checks a whole program in an empty scope. -/
def typecheck (program : Stmt) : Except StaticError Unit := (program.check .empty).1

end Stmt
end Scriptlet
