import Mathlib.Tactic.ByContra
import Scriptlet.Exec
import Scriptlet.Proofs.Typing.Prediction

/-!
# What an expression reads

A well-typed expression makes one read for each of its input leaves, from left to right,
and no other: both operands of an operator are evaluated whatever the first one gives.
So its evaluation goes as far as these reads made on their own. On a queue they succeed
exactly if the queue begins with values of the types that are asked for; otherwise the
first value that is missing or of another type ends the evaluation.
-/

namespace Scriptlet

/-- The types that the input leaves of an expression ask for, from left to right. -/
def Expr.inputs : Expr → List Ty
  | .num _ | .bool _ | .var _ => []
  | .input ty => [ty]
  | .unary _ operand => operand.inputs
  | .binary _ left right => left.inputs ++ right.inputs

namespace InputSource

variable {σ : Type} [InputSource σ]

/-- Reads values of the given types one after the other, as long as no read fails. -/
def readEach : List Ty → Attempt InputError σ Unit
  | [] => pure ()
  | ty :: rest => do
    let _ ← read ty
    readEach rest

theorem readEach_append (first second : List Ty) :
    (readEach (first ++ second) : Attempt InputError σ Unit) =
      readEach first >>= fun _ => readEach second := by
  induction first with
  | nil => rfl
  | cons ty first ih =>
      rw [List.cons_append, readEach, ih, readEach, Attempt.bind_assoc]

end InputSource

/-- How an evaluation ends beside the reads that it makes: with a value of a type if they
all succeed, with the error of the read that fails, and with the same input left. -/
inductive Expr.FollowsReads {σ : Type} (ty : Ty) :
    Except InputError Unit × σ → Except RuntimeError Value × σ → Prop
  | value {v : Value} {rest : σ} : v.ty = ty → FollowsReads ty (.ok (), rest) (.ok v, rest)
  | failed {cause : InputError} {rest : σ} :
      FollowsReads ty (.error cause, rest) (.error (.input cause), rest)

/-- What is foretold to have a type, with nothing excused, has a value of it. -/
theorem Foretold.exists_value {ty : Ty} {result : Except RuntimeError Value}
    (foretold : Foretold (fun _ => False) (.ok ty) result) : ∃ v, result = .ok v ∧ v.ty = ty := by
  cases foretold with
  | value v => exact ⟨v, rfl, rfl⟩
  | excused never => exact never.elim

namespace Expr

variable {σ : Type} [InputSource σ] {types : Scope Ty} {values : Scope Value} {ty ty' : Ty}

namespace FollowsReads

variable {x : Attempt InputError σ Unit} {y : Attempt RuntimeError σ Value} {input : σ}

omit [InputSource σ] in
/-- The rule for sequences. -/
theorem bind {f : Unit → Attempt InputError σ Unit} {g : Value → Attempt RuntimeError σ Value}
    (first : FollowsReads ty (x input) (y input))
    (next : ∀ v rest, v.ty = ty → FollowsReads ty' (f () rest) (g v rest)) :
    FollowsReads ty' ((x >>= f) input) ((y >>= g) input) := by
  rw [Attempt.bind_apply, Attempt.bind_apply]
  generalize x input = reads at first ⊢
  generalize y input = ended at first ⊢
  cases first with
  | value typed => exact next _ _ typed
  | failed => exact .failed

omit [InputSource σ] in
/-- What is done with the value makes no further read. -/
theorem andThen {answer : Value → Except RuntimeError Value}
    (first : FollowsReads ty (x input) (y input))
    (gives : ∀ v, v.ty = ty → ∃ w, answer v = .ok w ∧ w.ty = ty') :
    FollowsReads ty' (x input) ((y >>= fun v => Attempt.query fun _ => answer v) input) := by
  rw [Attempt.bind_apply]
  generalize x input = reads at first ⊢
  generalize y input = ended at first ⊢
  cases first with
  | failed => exact .failed
  | @value v rest typed =>
      obtain ⟨w, given, typed'⟩ := gives v typed
      change FollowsReads ty' (.ok (), rest) (answer v, rest)
      rw [given]
      exact .value typed'

end FollowsReads

/-- A well-typed expression makes the reads of its input leaves, from left to right, and
fails only if one of them does. -/
theorem eval_followsReads (source : InputSource.Typed σ)
    (agree : ∀ x, (values.get? x).map Value.ty = types.get? x) {e : Expr}
    (typed : e.infer types = .ok ty) (input : σ) :
    FollowsReads ty (InputSource.readEach e.inputs input) (e.eval values input) := by
  induction e generalizing ty input with
  | num x =>
      cases typed
      exact .value rfl
  | bool b =>
      cases typed
      exact .value rfl
  | var x =>
      have same := agree x
      simp only [infer, eval, Attempt.query_apply, Scope.lookup] at typed ⊢
      cases found : types.get? x with
      | none =>
          rw [found] at typed
          cases typed
      | some ty' =>
          rw [found] at typed same
          cases typed
          obtain ⟨v, bound, typed⟩ := Option.map_eq_some_iff.mp same
          rw [bound]
          exact .value typed
  | input asked =>
      cases typed
      simp only [inputs, InputSource.readEach, eval, Attempt.mapError, Attempt.bind_apply]
      have fits := source asked input
      generalize InputSource.read asked input = outcome at fits ⊢
      obtain ⟨cause | v, rest⟩ := outcome
      · exact .failed
      · exact .value (fits v rfl)
  | unary op operand ih =>
      rw [infer_unary] at typed
      obtain ⟨operandTy, first, typing⟩ := except_bind_eq_ok_iff.mp typed
      refine (ih first input).andThen fun v same => ?_
      apply Foretold.exists_value
      rw [← typing, ← same]
      exact .unary_apply op v
  | binary op left right atLeft atRight =>
      rw [infer_binary] at typed
      obtain ⟨leftTy, first, typed⟩ := except_bind_eq_ok_iff.mp typed
      obtain ⟨rightTy, second, typing⟩ := except_bind_eq_ok_iff.mp typed
      rw [inputs, InputSource.readEach_append]
      refine (atLeft first input).bind fun l rest sameLeft => ?_
      refine (atRight second rest).andThen fun r sameRight => ?_
      apply Foretold.exists_value
      rw [← typing, ← sameLeft, ← sameRight]
      exact .binary_apply op l r

end Expr

namespace Queue

open InputSource (readEach)

/-- At place `k` a queue first falls short of the types that are asked of it: it holds
values of the types before, and there it ends or holds a value of another type than
`expected`. -/
structure FallsShort (tys : List Ty) (queue : Queue) (k : Nat) (expected : Ty) : Prop where
  asked : tys[k]? = some expected
  before : tys.take k <+: queue.map Value.ty
  here : (queue[k]?).map Value.ty ≠ some expected

variable {tys : List Ty} {queue : Queue} {ty expected : Ty} {v : Value} {k : Nat}

theorem readEach_cons (fits : v.ty = ty) (tys : List Ty) (queue : Queue) :
    readEach (ty :: tys) (v :: queue) = readEach tys queue :=
  Attempt.bind_ok (read_of_ty fits queue) _

theorem readEach_of_prefix (enough : tys <+: queue.map Value.ty) :
    readEach tys queue = (.ok (), queue.drop tys.length) := by
  induction tys generalizing queue with
  | nil => rfl
  | cons ty tys ih =>
      cases queue with
      | nil => simp at enough
      | cons v queue =>
          obtain ⟨fits, others⟩ := List.cons_prefix_cons.mp enough
          rw [readEach_cons fits.symm, ih others]
          rfl

/-- If the queue does not begin with values of the types that are asked for, it falls short
somewhere. -/
theorem exists_fallsShort (lacking : ¬ tys <+: queue.map Value.ty) :
    ∃ k expected, FallsShort tys queue k expected := by
  induction tys generalizing queue with
  | nil => exact absurd List.nil_prefix lacking
  | cons ty tys ih =>
      cases queue with
      | nil => exact ⟨0, ty, rfl, List.nil_prefix, nofun⟩
      | cons v queue =>
          by_cases fits : v.ty = ty
          · have others : ¬ tys <+: queue.map Value.ty := by
              intro enough
              exact lacking (List.cons_prefix_cons.mpr ⟨fits.symm, enough⟩)
            obtain ⟨k, expected, asked, before, here⟩ := ih others
            exact ⟨k + 1, expected, asked, List.cons_prefix_cons.mpr ⟨fits.symm, before⟩, here⟩
          · exact ⟨0, ty, rfl, List.nil_prefix, fun same => fits (Option.some.inj same)⟩

/-- Reads fail where the queue first falls short: at its end, or with the value of another
type taken. -/
theorem FallsShort.readEach (short : FallsShort tys queue k expected) :
    (queue.length = k ∧ InputSource.readEach tys queue = (.error (.closed expected), [])) ∨
      ∃ v, queue[k]? = some v ∧ v.ty ≠ expected ∧
        InputSource.readEach tys queue = (.error (.mismatch expected v), queue.drop (k + 1)) := by
  induction k generalizing tys queue with
  | zero =>
      obtain ⟨asked, -, here⟩ := short
      obtain ⟨rest, rfl⟩ := List.head?_eq_some_iff.mp (List.head?_eq_getElem? .. ▸ asked)
      cases queue with
      | nil => exact .inl ⟨rfl, rfl⟩
      | cons v queue =>
          have differs : v.ty ≠ expected := fun same => here (congrArg some same)
          refine .inr ⟨v, rfl, differs, ?_⟩
          exact Attempt.bind_error (read_of_ty_ne differs queue) _
  | succ k ih =>
      obtain ⟨asked, before, here⟩ := short
      cases tys with
      | nil => cases asked
      | cons ty tys =>
          cases queue with
          | nil => simp at before
          | cons v queue =>
              obtain ⟨fits, others⟩ := List.cons_prefix_cons.mp before
              rw [readEach_cons fits.symm]
              rcases ih ⟨asked, others, here⟩ with ⟨ended, failed⟩ | other
              · exact .inl ⟨congrArg (· + 1) ended, failed⟩
              · exact .inr other

end Queue

namespace Run

variable {types : Scope Ty} {m : Machine Queue} {e : Expr} {ty : Ty}

/-- If the queue holds all that an expression asks for, the expression takes it and has a
value. -/
theorem eval_of_prefix (agree : ∀ x, (m.scope.get? x).map Value.ty = types.get? x)
    (typed : e.infer types = .ok ty) (enough : e.inputs <+: m.input.map Value.ty) :
    ∃ v, v.ty = ty ∧
      Run.eval e m = (.ok v, { m with input := m.input.drop e.inputs.length }) := by
  have follows := Expr.eval_followsReads Queue.typed agree typed m.input
  rw [Queue.readEach_of_prefix enough] at follows
  unfold Run.eval
  generalize e.eval m.scope m.input = ended at follows ⊢
  cases follows with
  | value same => exact ⟨_, same, rfl⟩

/-- A read that fails ends the evaluation with its error. -/
theorem eval_of_readEach (agree : ∀ x, (m.scope.get? x).map Value.ty = types.get? x)
    (typed : e.infer types = .ok ty) {cause : InputError} {rest : Queue}
    (failed : InputSource.readEach e.inputs m.input = (.error cause, rest)) :
    Run.eval e m = (.error (.failed (.input cause)), { m with input := rest }) := by
  have follows := Expr.eval_followsReads Queue.typed agree typed m.input
  rw [failed] at follows
  unfold Run.eval
  generalize e.eval m.scope m.input = ended at follows ⊢
  cases follows with
  | failed => rfl

theorem eval_of_fallsShort (agree : ∀ x, (m.scope.get? x).map Value.ty = types.get? x)
    (typed : e.infer types = .ok ty) {k : Nat} {expected : Ty}
    (short : Queue.FallsShort e.inputs m.input k expected) :
    (m.input.length = k ∧ Run.eval e m =
        (.error (.failed (.input (.closed expected))), { m with input := [] })) ∨
      ∃ v, m.input[k]? = some v ∧ v.ty ≠ expected ∧ Run.eval e m =
        (.error (.failed (.input (.mismatch expected v))),
          { m with input := m.input.drop (k + 1) }) := by
  rcases short.readEach with ⟨ended, failed⟩ | ⟨v, there, differs, failed⟩
  · exact .inl ⟨ended, eval_of_readEach agree typed failed⟩
  · exact .inr ⟨v, there, differs, eval_of_readEach agree typed failed⟩

/-- A well-typed expression succeeds on a queue exactly if the queue begins with values of
the types of its input leaves, from left to right, and takes these values. Otherwise it
fails where the queue first falls short, with the values up to there taken. Nothing but
the queue changes. -/
theorem eval_reads_inputs (agree : ∀ x, (m.scope.get? x).map Value.ty = types.get? x)
    (typed : e.infer types = .ok ty) :
    ((∃ v m', Run.eval e m = (.ok v, m')) ↔ e.inputs <+: m.input.map Value.ty) ∧
    (e.inputs <+: m.input.map Value.ty → ∃ v, v.ty = ty ∧
      Run.eval e m = (.ok v, { m with input := m.input.drop e.inputs.length })) ∧
    (¬ e.inputs <+: m.input.map Value.ty → ∃ k expected,
      Queue.FallsShort e.inputs m.input k expected ∧
      ((m.input.length = k ∧ Run.eval e m =
          (.error (.failed (.input (.closed expected))), { m with input := [] })) ∨
        ∃ v, m.input[k]? = some v ∧ v.ty ≠ expected ∧ Run.eval e m =
          (.error (.failed (.input (.mismatch expected v))),
            { m with input := m.input.drop (k + 1) }))) := by
  refine ⟨⟨?_, ?_⟩, eval_of_prefix agree typed, ?_⟩
  · rintro ⟨v, m', succeeded⟩
    by_contra lacking
    obtain ⟨k, expected, short⟩ := Queue.exists_fallsShort lacking
    obtain ⟨-, failed⟩ | ⟨w, -, -, failed⟩ := eval_of_fallsShort agree typed short
    · cases succeeded.symm.trans failed
    · cases succeeded.symm.trans failed
  · intro enough
    obtain ⟨v, -, succeeded⟩ := eval_of_prefix agree typed enough
    exact ⟨v, _, succeeded⟩
  · intro lacking
    obtain ⟨k, expected, short⟩ := Queue.exists_fallsShort lacking
    exact ⟨k, expected, short, eval_of_fallsShort agree typed short⟩

/-- A machine with a truth value in scope and a queue. -/
def waiting (queue : Queue) : Machine Queue := ⟨⟨[], [("x", .bool true)]⟩, queue, #[]⟩

/-- Two reads under an `and`, one of them beside a variable. -/
def bothRead : Expr := .binary .and (.input .bool) (.binary .or (.var "x") (.input .bool))

/-- Neither the `false` on the left nor the `true` beside it spares the second read: with two
truth values both are taken, and the number in the place of the second one is a mismatch. -/
theorem bothRead_reads_inputs :
    (∃ v, v.ty = .bool ∧ Run.eval bothRead (waiting [.bool false, .bool true, .num 7]) =
      (.ok v, waiting [.num 7])) ∧
    ∃ k expected, Queue.FallsShort [.bool, .bool] [.bool false, .num 1, .num 7] k expected ∧
      Run.eval bothRead (waiting [.bool false, .num 1, .num 7]) =
        (.error (.failed (.input (.mismatch .bool (.num 1)))), waiting [.num 7]) := by
  have agree (queue : Queue) (x : String) : ((waiting queue).scope.get? x).map Value.ty =
      (⟨[], [("x", .bool)]⟩ : Scope Ty).get? x := by
    by_cases found : x = "x" <;> simp [waiting, found, Value.ty]
  have typed : bothRead.infer ⟨[], [("x", .bool)]⟩ = .ok .bool := rfl
  have reads (queue : Queue) := eval_reads_inputs (agree queue) typed
  refine ⟨(reads [.bool false, .bool true, .num 7]).2.1 ⟨[.num], rfl⟩, ?_⟩
  obtain ⟨k, expected, short, -⟩ := (reads [.bool false, .num 1, .num 7]).2.2 (by decide)
  exact ⟨k, expected, short, rfl⟩

end Run
end Scriptlet
