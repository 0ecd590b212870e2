import Scriptlet.Proofs.Exec.Rounds
import Scriptlet.Proofs.Scope.Raised
import Scriptlet.Proofs.Typing.Rules
import Scriptlet.Proofs.Typing.Walks

/-!
# A block around a program

A block in a block is checked and executed as the inner block alone. The outer block
only adds an empty frame at the bottom of the scope, and each step of a check or a
run does the same with and without that frame, as long as another frame is pushed.
-/

namespace Scriptlet

open Attempt (Commutes)

namespace Check

/-- A check at a depth does not notice an empty frame at the bottom. -/
abbrev Unaware {α : Type} (depth : Nat) (x : Attempt StaticError (Scope Ty) α) : Prop :=
  x.Commutes Scope.raise fun scope => scope.depth = depth

variable {depth : Nat}

theorem unaware_infer (e : Expr) : Unaware depth (Check.infer e) :=
  Attempt.commutes_query fun scope => Expr.infer_congr e fun x _ => scope.get?_raise x

theorem unaware_require (expected actual : Ty) : Unaware depth (Check.require expected actual) :=
  Attempt.commutes_query fun _ => rfl

theorem unaware_assigned (name : String) : Unaware depth (Check.assigned name) :=
  Attempt.commutes_query fun scope => by rw [Scope.get?_raise]

theorem unaware_declare (name : String) (ty : Ty) : Unaware (depth + 2) (Check.declare name ty) := by
  intro scope pushed
  simp only [Check.declare, Attempt.advance, Scope.declare_raise (s := scope) (by omega)]
  cases declared : scope.declare name ty with
  | error e => exact ⟨rfl, pushed⟩
  | ok scope' => exact ⟨rfl, (Scope.depth_declare declared).trans pushed⟩

/-- A frame that is taken away again lies above the one at the bottom. -/
theorem Unaware.within {body : Check} (inside : Unaware (depth + 1) body) :
    Unaware depth (Check.within body) := by
  intro scope here
  have deeper : scope.push.depth = depth + 1 := by rw [Scope.depth_push, here]
  obtain ⟨same, kept⟩ := inside scope.push deeper
  have positive : 0 < depth := by rw [← here]; exact Nat.succ_pos _
  obtain ⟨outer, popped, back⟩ := Scope.exists_pop positive kept
  simp only [Check.within, Scope.within, Scope.push_raise, same, popped, Scope.pop_raise popped]
  exact ⟨trivial, back⟩

theorem unaware_hereditary : Hereditary fun depth => Unaware (depth + 2) where
  pure a := Attempt.commutes_pure a
  bind first next := first.bind next
  within inside := inside.within
  infer e := unaware_infer e
  require expected actual := unaware_require expected actual
  assigned name := unaware_assigned name
  declare name ty := unaware_declare name ty

/-- A frame around what does not notice it makes no difference. -/
theorem Unaware.within_eq {body : Check} (outermost : Unaware 1 body) {scope : Scope Ty}
    (flat : scope.depth = 1) : Check.within body scope = body scope := by
  obtain ⟨same, kept⟩ := outermost scope flat
  simp only [Check.within, Scope.within, ← Scope.raise_eq_push flat, same,
    Scope.raise_eq_push kept, Scope.pop_push]

end Check

namespace Stmt

open Check

/-- A block alone in a block is checked as if it were the program. -/
theorem typecheck_nested (body : List Stmt) :
    (block [block body]).typecheck = (block body).typecheck := by
  have inner : Check.Unaware 1 (block body).check :=
    (checkAll_of_hereditary unaware_hereditary body 0 : Unaware 2 (checkAll body)).within
  have alone : Check.Unaware 1 (checkAll [block body]) :=
    inner.bind fun _ => Attempt.commutes_pure ()
  have single : checkAll [block body] .empty = (block body).check .empty := by
    rw [checkAll, Attempt.bind_apply]
    rcases (block body).check .empty with ⟨_ | _, scope⟩ <;> rfl
  rw [typecheck, typecheck, check, alone.within_eq rfl, single]

end Stmt

/-- An expression has the same value in scopes that agree on what it mentions. -/
theorem Expr.eval_congr {σ : Type} [InputSource σ] {scope scope' : Scope Value} (e : Expr)
    (same : ∀ x ∈ e.names, scope.get? x = scope'.get? x) :
    (e.eval scope : Attempt RuntimeError σ Value) = e.eval scope' := by
  induction e with
  | num | bool | input => rfl
  | var x =>
      have atName : scope.get? x = scope'.get? x := same x (by simp [names])
      simp only [eval, Scope.lookup, atName]
  | unary op e ih => simp only [eval, ih same]
  | binary op left right atLeft atRight =>
      simp only [eval, atLeft fun x h => same x (List.mem_append_left _ h),
        atRight fun x h => same x (List.mem_append_right _ h)]

/-- The machine with an empty frame at the bottom. -/
def Machine.raise {σ : Type} (m : Machine σ) : Machine σ := { m with scope := m.scope.raise }

namespace Run

variable {σ : Type} {depth : Nat}

/-- A run at a depth does not notice an empty frame at the bottom. -/
abbrev Unaware {α : Type} (depth : Nat) (x : Run σ α) : Prop :=
  x.Commutes Machine.raise fun m => m.scope.depth = depth

theorem unaware_eval [InputSource σ] (e : Expr) : Unaware depth (Run.eval e : Run σ Value) := by
  intro m here
  simp only [Run.eval, Machine.raise, Expr.eval_congr e fun x _ => m.scope.get?_raise x]
  rcases e.eval m.scope m.input with ⟨_ | _, input⟩
  · exact ⟨rfl, here⟩
  · exact ⟨rfl, here⟩

theorem unaware_rescope {f : Scope Value → Except ScopeError (Scope Value)}
    (same : ∀ scope, scope.depth = depth → f scope.raise = (f scope).map Scope.raise)
    (level : ∀ scope scope', f scope = .ok scope' → scope'.depth = scope.depth) :
    Unaware depth (Run.rescope f : Run σ Unit) := by
  intro m here
  simp only [Run.rescope, Machine.raise, same m.scope here]
  cases changed : f m.scope with
  | error e => exact ⟨rfl, here⟩
  | ok scope => exact ⟨rfl, (level m.scope scope changed).trans here⟩

theorem unaware_print (v : Value) : Unaware depth (Run.print v : Run σ Unit) :=
  fun _ here => ⟨rfl, here⟩

theorem Unaware.within {body : Run σ Unit} (inside : Unaware (depth + 1) body) :
    Unaware depth (Run.within body) := by
  intro m here
  obtain ⟨same, kept⟩ := inside m.inner (congrArg (· + 1) here)
  have positive : 0 < depth := by rw [← here]; exact Nat.succ_pos _
  obtain ⟨outer, popped, back⟩ := Scope.exists_pop positive kept
  have ran : body m.inner = ((body m.inner).1, (body m.inner).2) := rfl
  rw [within_of_pop ran popped, within_of_pop (m := m.raise) same (Scope.pop_raise popped)]
  exact ⟨rfl, back⟩

theorem Unaware.within_eq {body : Run σ Unit} (outermost : Unaware 1 body) {m : Machine σ}
    (flat : m.scope.depth = 1) : Run.within body m = body m := by
  obtain ⟨same, kept⟩ := outermost m flat
  have inner : m.raise = m.inner := by rw [Machine.raise, Machine.inner, Scope.raise_eq_push flat]
  rw [inner] at same
  have popped : (body m).2.raise.scope.pop = .ok (body m).2.scope := by
    rw [Machine.raise, Scope.raise_eq_push kept, Scope.pop_push]
  rw [within_of_pop same popped]
  rfl

theorem Unaware.repeatWhile {condition : Run σ Value} {body : Run σ Unit}
    (atCondition : Unaware depth condition) (atBody : Unaware depth body) (rounds : Nat) :
    Unaware depth (Run.repeatWhile condition body rounds) := by
  induction rounds with
  | zero => exact Attempt.commutes_fail _
  | succ rounds ih =>
      refine atCondition.bind fun v => ?_
      cases v.truthy with
      | false => exact Attempt.commutes_pure ()
      | true => exact atBody.bind fun _ => ih

end Run

namespace Stmt

open Run

variable {σ : Type} [InputSource σ]

theorem unaware_execAll {depth rounds : Nat} {body : List Stmt}
    (parts : ∀ s ∈ body, Unaware depth (s.exec rounds : Run σ Unit)) :
    Unaware depth (execAll rounds body : Run σ Unit) := by
  induction body with
  | nil => exact Attempt.commutes_pure ()
  | cons s rest ih =>
      simp only [List.forall_mem_cons] at parts
      exact parts.1.bind fun _ => ih parts.2

theorem unaware_execOption {depth rounds : Nat} {missing : Option Stmt}
    (parts : ∀ s, missing = some s → Unaware depth (s.exec rounds : Run σ Unit)) :
    Unaware depth (execOption rounds missing : Run σ Unit) := by
  cases missing with
  | none => exact Attempt.commutes_pure ()
  | some s => exact parts s rfl

/-- No run inside a block notices an empty frame at the bottom. -/
theorem unaware_exec (rounds : Nat) (s : Stmt) (depth : Nat) :
    Unaware (depth + 2) (s.exec rounds : Run σ Unit) := by
  induction s generalizing depth with
  | declare name value =>
      refine (unaware_eval value).bind fun v => unaware_rescope ?_ ?_
      · exact fun scope pushed => Scope.declare_raise (by omega) name v
      · exact fun scope scope' declared => Scope.depth_declare declared
  | assign name value =>
      refine (unaware_eval value).bind fun v => unaware_rescope ?_ ?_
      · exact fun scope _ => scope.update_raise name v
      · exact fun scope scope' updated => Scope.depth_update updated
  | print value => exact (unaware_eval value).bind fun v => unaware_print v
  | block body parts => exact (unaware_execAll fun s member => parts s member _).within
  | branch condition onTrue onFalse atTrue atFalse =>
      refine Unaware.within ((unaware_eval condition).bind fun v => ?_)
      cases v.truthy with
      | true => exact atTrue _
      | false => exact unaware_execOption fun s some => atFalse s some _
  | loop condition body atBody =>
      exact ((unaware_eval condition).repeatWhile (atBody _) rounds).within
  | switch focus cases fallback atCases atFallback =>
      obtain ⟨entries⟩ := cases
      refine Unaware.within ((unaware_eval focus).bind fun v => ?_)
      rw [execCase_eq]
      cases found : (Cases.mk entries).get? v with
      | some s =>
          obtain ⟨label, member⟩ := Cases.exists_mem_of_get? found
          exact atCases (label, s) member _
      | none => exact unaware_execOption fun s some => atFallback s some _

/-- A block alone in a block runs as if it were the program. -/
theorem execute_nested (rounds : Nat) (body : List Stmt) (input : σ) :
    (block [block body]).execute rounds input = (block body).execute rounds input := by
  have inner : Unaware 1 ((block body).exec rounds : Run σ Unit) :=
    (unaware_execAll fun s _ => unaware_exec rounds s 0).within
  have alone : Unaware 1 (execAll rounds [block body] : Run σ Unit) :=
    unaware_execAll (by simpa using inner)
  have single : execAll rounds [block body] (.start input) =
      (block body).exec rounds (.start input) := by
    rw [execAll, Attempt.bind_apply]
    rcases (block body).exec rounds (.start input) with ⟨_ | _, m⟩ <;> rfl
  rw [execute, execute, exec, alone.within_eq rfl, single]

end Stmt
end Scriptlet
