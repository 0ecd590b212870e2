import Scriptlet.Proofs.Scope.Bindings
import Scriptlet.Proofs.Typing.Checking
import Scriptlet.Proofs.Typing.Rules

/-!
# A check changes the scope by one declaration or not at all

Whatever a check has declared on its way, and however deep it fails, it leaves every
frame with the names and types it had. The one exception is a statement that is itself a
declaration and passes: it adds its name to the innermost frame. Every frame that a check
takes away is one that it has pushed, so it never meets the global frame.
-/

namespace Scriptlet

/-- Inference takes no frame away. -/
theorem Expr.infer_ne_noFrame (e : Expr) (scope : Scope Ty) :
    e.infer scope ≠ .error (.scope .noFrame) := by
  induction e with
  | num | bool | input => intro missed; cases missed
  | var name =>
      intro missed
      unfold infer Scope.lookup at missed
      cases found : scope.get? name with
      | none => rw [found] at missed; cases missed
      | some ty => rw [found] at missed; cases missed
  | unary op operand ih =>
      rw [infer_unary]
      exact bind_ne_scope ih fun ty => unaryTyping_ne_scope op ty .noFrame
  | binary op left right ihl ihr =>
      rw [infer_binary]
      refine bind_ne_scope ihl fun l => bind_ne_scope ihr fun r => ?_
      exact binaryTyping_ne_scope op l r .noFrame

namespace Check

variable {α β : Type}

/-- A walk that never misses a frame. -/
def Framed (x : Attempt StaticError (Scope Ty) α) : Prop :=
  ∀ scope, (x scope).1 ≠ .error (.scope .noFrame)

theorem framed_pure (a : α) : Framed (pure a) := fun _ => nofun

theorem Framed.bind {x : Attempt StaticError (Scope Ty) α}
    {f : α → Attempt StaticError (Scope Ty) β} (first : Framed x) (next : ∀ a, Framed (f a)) :
    Framed (x >>= f) := by
  intro scope
  have atFirst := first scope
  rw [Attempt.bind_apply]
  generalize x scope = outcome at atFirst ⊢
  obtain ⟨e | a, scope'⟩ := outcome
  · intro missed
    cases missed
    exact atFirst rfl
  · exact next a scope'

theorem framed_infer (e : Expr) : Framed (Check.infer e) := e.infer_ne_noFrame

theorem framed_require (expected actual : Ty) : Framed (Check.require expected actual) := by
  intro scope
  unfold Check.require Ty.require Attempt.query
  split <;> nofun

theorem framed_assigned (name : String) : Framed (Check.assigned name) := by
  intro scope
  unfold Check.assigned Attempt.query
  dsimp only
  split <;> nofun

theorem declare_of_error {name : String} {ty : Ty} {scope : Scope Ty} {e : ScopeError}
    (refused : scope.declare name ty = .error e) :
    Check.declare name ty scope = (.error (.scope e), scope) := by
  simp only [Check.declare, Attempt.advance, refused, except_mapError_error]

theorem framed_declare (name : String) (ty : Ty) : Framed (Check.declare name ty) := by
  intro scope
  cases declared : scope.declare name ty with
  | ok scope' =>
      rw [Check.declare_eq_ok_iff.mpr declared]
      nofun
  | error e =>
      rw [declare_of_error declared]
      rintro ⟨⟩
      exact Scope.declare_ne_noFrame declared

/-- The frame that a walk gives back is the one that was pushed for it. -/
theorem Framed.within {body : Check} (framed : Framed body) (declares : OnlyDeclares body) :
    Framed (Check.within body) := by
  intro scope
  rw [within_apply declares]
  exact framed scope.push

theorem framed_hereditary : Hereditary fun _ {_} x => OnlyDeclares x ∧ Framed x where
  pure a := ⟨(keeps_pure a).onlyDeclares, framed_pure a⟩
  bind first next := ⟨first.1.bind fun a => (next a).1, first.2.bind fun a => (next a).2⟩
  within inside := ⟨(keeps_within inside.1).onlyDeclares, inside.2.within inside.1⟩
  infer e := ⟨(keeps_query _).onlyDeclares, framed_infer e⟩
  require expected actual := ⟨(keeps_query _).onlyDeclares, framed_require expected actual⟩
  assigned name := ⟨(keeps_query _).onlyDeclares, framed_assigned name⟩
  declare name ty := ⟨onlyDeclares_declare name ty, framed_declare name ty⟩

end Check

namespace Stmt

open Check

variable {scope scope' : Scope Ty}

theorem framed_check (s : Stmt) : Framed s.check :=
  (check_of_hereditary framed_hereditary s 0).2

/-- A declaration that fails, on its value or on its name, leaves the scope as it was. -/
theorem check_declare_of_error {name : String} {value : Expr} {e : StaticError}
    (failed : (Stmt.declare name value).check scope = (.error e, scope')) : scope' = scope := by
  rw [check] at failed
  cases typed : value.infer scope with
  | error fault =>
      have first : Check.infer value scope = (.error fault, scope) := congrArg (·, scope) typed
      rw [Attempt.bind_error first] at failed
      cases failed
      rfl
  | ok ty =>
      rw [Attempt.bind_ok (infer_eq_ok_iff.mpr ⟨typed, rfl⟩)] at failed
      cases declared : scope.declare name ty with
      | ok grown =>
          rw [Check.declare_eq_ok_iff.mpr declared] at failed
          cases failed
      | error cause =>
          rw [declare_of_error declared] at failed
          cases failed
          rfl

/-- A check leaves the whole scope as it was if it fails, at whatever depth, or if the
statement is no declaration. A declaration that passes adds its name, which was not there,
to the innermost frame, with the type of its value, and changes nothing else. No check
takes away a frame that it has not pushed. -/
theorem check_atomic {s : Stmt} {result : Except StaticError Unit}
    (ran : s.check scope = (result, scope')) :
    ((∃ e, result = .error e) ∨ (∀ name value, s ≠ .declare name value) → scope' = scope) ∧
    (∀ name value, s = .declare name value → result = .ok () →
      ∃ ty, value.infer scope = .ok ty ∧ scope.top.get? name = none ∧
        scope' = scope.bindTop name ty) ∧
    result ≠ .error (.scope .noFrame) := by
  have keeps (other : ∀ name value, s ≠ .declare name value) : scope' = scope := by
    have kept := keeps_check other scope
    rwa [ran] at kept
  refine ⟨?_, ?_, ?_⟩
  · rintro (⟨e, rfl⟩ | other)
    · by_cases declaration : ∃ name value, s = .declare name value
      · obtain ⟨name, value, rfl⟩ := declaration
        exact check_declare_of_error ran
      · exact keeps fun name value same => declaration ⟨name, value, same⟩
    · exact keeps other
  · rintro name value rfl rfl
    obtain ⟨ty, typed, declared⟩ := check_declare_iff.mp ran
    obtain ⟨free, added⟩ := Scope.declare_eq_ok_iff.mp declared
    exact ⟨ty, typed, free, added⟩
  · have framed := framed_check s scope
    rwa [ran] at framed

/-- Declares at three depths, hides outer names and fails in the innermost frame. -/
def brokenInside : Stmt :=
  .block [.declare "x" (.bool true), .loop (.var "x") (.block [.declare "x" (.num 1),
    .switch (.var "x") (.ofList [(.num 1, .declare "y" (.var "missing"))]) none])]

/-- The failure is deep inside and leaves the scope as it was, and a declaration in that
scope then adds one name to the inner frame. -/
theorem brokenInside_atomic :
    let scope : Scope Ty := ⟨[[("x", .num)]], [("x", .bool)]⟩
    (brokenInside.check scope).1 = .error (.scope (.undefined "missing")) ∧
    (brokenInside.check scope).2 = scope ∧
    ∃ ty, (Expr.var "x").infer scope = .ok ty ∧ scope.top.get? "y" = none ∧
      ((Stmt.declare "y" (.var "x")).check scope).2 = scope.bindTop "y" ty := by
  intro scope
  have failed : brokenInside.check scope =
      (.error (.scope (.undefined "missing")), (brokenInside.check scope).2) := rfl
  have passed : (Stmt.declare "y" (.var "x")).check scope =
      (.ok (), ((Stmt.declare "y" (.var "x")).check scope).2) := rfl
  refine ⟨rfl, (check_atomic failed).1 (.inl ⟨_, rfl⟩), ?_⟩
  exact (check_atomic passed).2.1 _ _ rfl rfl

end Stmt
end Scriptlet
