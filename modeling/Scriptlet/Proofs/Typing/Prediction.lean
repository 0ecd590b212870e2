import Scriptlet.Eval
import Scriptlet.Proofs.Input.Reads
import Scriptlet.Proofs.Typing.Rules

/-!
# Inference predicts evaluation

Inference and evaluation walk over an expression in the same order and stop at
the same place. `Foretold` relates what the two find: a type and a value of it,
the same unbound name, or a mismatch and a type fault. Evaluation can stop
earlier for reasons that no type shows, such as input that has ended; a set of
errors that are excused in this way is a parameter. With nothing excused, each
result of either walk decides the result of the other.
-/

namespace Scriptlet

/-- What inference found and what evaluation gave, where evaluation may also end
in an excused error. -/
inductive Foretold (excused : RuntimeError → Prop) :
    Except StaticError Ty → Except RuntimeError Value → Prop
  | value (v : Value) : Foretold excused (.ok v.ty) (.ok v)
  | scope (cause : ScopeError) :
      Foretold excused (.error (.scope cause)) (.error (.scope cause))
  | fault (expected actual : Ty) (cause : TypeFault) :
      Foretold excused (.error (.mismatch expected actual)) (.error (.type cause))
  | excused {inferred : Except StaticError Ty} {e : RuntimeError} :
      excused e → Foretold excused inferred (.error e)

namespace Foretold

variable {excused : RuntimeError → Prop}

/-- Prediction is kept by going on with what was predicted. -/
theorem bind {σ : Type} {inferred : Except StaticError Ty} {f : Ty → Except StaticError Ty}
    {x : Attempt RuntimeError σ Value} {g : Value → Attempt RuntimeError σ Value} {s : σ}
    (first : Foretold excused inferred (x s).1)
    (next : ∀ v t, Foretold excused (f v.ty) (g v t).1) :
    Foretold excused (inferred >>= f) ((x >>= g) s).1 := by
  rw [Attempt.bind_apply]
  generalize x s = outcome at first ⊢
  obtain ⟨result, t⟩ := outcome
  cases first with
  | value v => exact next v t
  | scope cause => exact .scope cause
  | fault expected actual cause => exact .fault expected actual cause
  | excused h => exact .excused h

/-- The typing rule of an operator predicts what it gives on values. -/
theorem unary_apply (op : UnaryOp) (v : Value) :
    Foretold excused (op.typing v.ty) ((op.apply v).mapError .type) := by
  cases op with
  | negate =>
      cases v with
      | num x => exact .value (.num (-x))
      | bool b => exact .fault .num .bool _
  | not =>
      cases v with
      | num x => exact .fault .bool .num _
      | bool b => exact .value (.bool !b)

/-- An operator on numbers. -/
private theorem onNumbers (f : Float → Float → Float) (l r : Value) :
    Foretold excused (Expr.requireBoth .num .num (.ok l.ty) (.ok r.ty))
      ((BinaryOp.onNumbers f l r).mapError .type) := by
  cases l with
  | bool a => exact .fault .num .bool _
  | num x =>
      cases r with
      | bool b => exact .fault .num .bool _
      | num y => exact .value (.num (f x y))

/-- An operator with two readings: the left value picks the one that the types
of both operands allow, if they allow any. -/
private theorem onEither (bits : Float → Float → Float) (logic : Bool → Bool → Bool)
    (l r : Value) :
    Foretold excused (BinaryOp.typing .and l.ty r.ty)
      ((BinaryOp.onEither bits logic l r).mapError .type) := by
  cases l with
  | num x =>
      cases r with
      | num y => exact .value (.num (bits x y))
      | bool b => exact .fault .num .bool _
  | bool a =>
      cases r with
      | num y => exact .fault .num .bool _
      | bool b => exact .value (.bool (logic a b))

theorem binary_apply (op : BinaryOp) (l r : Value) :
    Foretold excused (op.typing l.ty r.ty) ((op.apply l r).mapError .type) := by
  cases op with
  | add | sub | mul | div | pow => exact onNumbers _ l r
  | and | or => exact onEither _ _ l r
  | less =>
      cases l with
      | num x =>
          cases r with
          | num y => exact .value (.bool (x < y))
          | bool b => exact .fault .num .bool _
      | bool a =>
          cases r with
          | num y => exact .fault .bool .num _
          | bool b => exact .value (.bool (!a && b))
  | equal =>
      cases l with
      | num x =>
          cases r with
          | num y => exact .value (.bool (x == y))
          | bool b => exact .fault .num .bool _
      | bool a =>
          cases r with
          | num y => exact .fault .bool .num _
          | bool b => exact .value (.bool (a == b))

end Foretold

namespace Expr

variable {σ : Type} [InputSource σ] {types : Scope Ty} {values : Scope Value}

/-- Inference predicts evaluation in scopes that agree name by name, up to names
whose absence is excused and reads whose failure is excused. -/
theorem eval_foretold {excused : RuntimeError → Prop} (typed : InputSource.Typed σ)
    (reads : ∀ (ty : Ty) (input : σ) (cause : InputError),
      (InputSource.read ty input).1 = .error cause → excused (.input cause))
    (agree : ∀ x, (values.get? x).map Value.ty = types.get? x ∨
      values.get? x = none ∧ excused (.scope (.undefined x)))
    (e : Expr) (input : σ) : Foretold excused (e.infer types) (e.eval values input).1 := by
  induction e generalizing input with
  | num x => exact .value (.num x)
  | bool b => exact .value (.bool b)
  | var x =>
      simp only [eval, infer, Attempt.query_apply, Scope.lookup]
      rcases agree x with same | ⟨absent, excuse⟩
      · rw [← same]
        cases values.get? x with
        | none => exact .scope (.undefined x)
        | some v => exact .value v
      · rw [absent]
        exact .excused excuse
  | input ty =>
      simp only [eval, infer, Attempt.mapError]
      cases given : InputSource.read ty input with
      | mk result rest =>
          cases result with
          | error cause => exact .excused (reads ty input cause (by rw [given]))
          | ok v =>
              have same : v.ty = ty := typed ty input v (by rw [given])
              exact same ▸ .value v
  | unary op e ih =>
      rw [infer_unary]
      exact (ih input).bind fun v _ => .unary_apply op v
  | binary op left right ihl ihr =>
      rw [infer_binary]
      refine (ihl input).bind fun l rest => ?_
      exact (ihr rest).bind fun r _ => .binary_apply op l r

/-- In scopes that agree name by name, and with input that never fails, either
walk decides the other: an expression has a type exactly if it has a value, and
then that of its value; they fail at the same unbound name; and the types
mismatch exactly if the values do. -/
theorem infer_iff_eval (delivers : InputSource.Delivers σ)
    (agree : ∀ x, (values.get? x).map Value.ty = types.get? x) (e : Expr) (input : σ) :
    (∀ ty, e.infer types = .ok ty ↔ ∃ v, (e.eval values input).1 = .ok v ∧ v.ty = ty) ∧
    (∀ cause, e.infer types = .error (.scope cause) ↔
      (e.eval values input).1 = .error (.scope cause)) ∧
    ((∃ expected actual, e.infer types = .error (.mismatch expected actual)) ↔
      ∃ cause, (e.eval values input).1 = .error (.type cause)) := by
  have never : ∀ (ty : Ty) (input : σ) (cause : InputError),
      (InputSource.read ty input).1 = .error cause → False := by
    intro ty input cause failed
    obtain ⟨v, given, _⟩ := delivers ty input
    rw [given] at failed
    cases failed
  have foretold : Foretold (fun _ => False) (e.infer types) (e.eval values input).1 :=
    eval_foretold delivers.typed never (fun x => .inl (agree x)) e input
  generalize e.infer types = inferred at foretold ⊢
  generalize (e.eval values input).1 = result at foretold ⊢
  cases foretold with
  | value v => simp
  | scope cause => simp
  | fault expected actual cause => simp
  | excused h => exact h.elim

/-- A global number and, in a frame, a truth value that hides another number. -/
def hidingTypes : Scope Ty := ⟨[[("y", .bool)]], [("x", .num), ("y", .num)]⟩

def hidingValues : Scope Value := ⟨[[("y", .bool true)]], [("x", .num 1), ("y", .num 2)]⟩

/-- The three ways in which the two walks end together. -/
theorem infer_iff_eval_hiding :
    (∃ v, ((binary .and (.var "y") (.input .bool)).eval hidingValues
      (⟨0, false⟩ : ConstantInput)).1 = .ok v ∧ v.ty = .bool) ∧
    ((binary .add (.input .num) (.var "z")).eval hidingValues (⟨0, false⟩ : ConstantInput)).1 =
      .error (.scope (.undefined "z")) ∧
    (∃ cause, ((binary .and (.var "x") (.var "y")).eval hidingValues
      (⟨0, false⟩ : ConstantInput)).1 = .error (.type cause)) := by
  have agree : ∀ x, (hidingValues.get? x).map Value.ty = hidingTypes.get? x := by
    intro x
    by_cases inFrame : x = "y"
    · simp [hidingValues, hidingTypes, inFrame, Value.ty]
    · by_cases found : x = "x" <;> simp [hidingValues, hidingTypes, inFrame, found, Value.ty]
  have both := fun e => infer_iff_eval ConstantInput.delivers agree e ⟨0, false⟩
  exact ⟨((both _).1 .bool).mp rfl, ((both _).2.1 _).mp rfl, (both _).2.2.mp ⟨_, _, rfl⟩⟩

end Expr
end Scriptlet
