import Scriptlet.Proofs.Typing.Safety
import Scriptlet.Session

/-!
# Values keep their types

A checked statement that succeeds leaves values that agree with the types its
check has left; one that fails leaves values that agree with the types from
before, since a frame is taken away whatever happens in it. The statements of a
session share their scopes. There the two can come apart in one way only: the
types go on with a declaration whose value could not be found. No later
statement that the check accepts can give that name a value of another type.
-/

namespace Scriptlet

namespace Stmt

variable {σ : Type} [InputSource σ] {missing : String → Prop} {rounds : Nat}
variable {types types' : Scope Ty} {m m' : Machine σ} {s : Stmt}

theorem fits_of_exec_ok (typed : InputSource.Typed σ) (fits : types.Fits missing m.scope)
    (checked : s.check types = (.ok (), types')) (ran : s.exec rounds m = (.ok (), m')) :
    types'.Fits missing m'.scope :=
  (Attempt.ensures_of_ok ran).mp (safe typed s types types' m fits checked)

theorem fits_of_exec_error (typed : InputSource.Typed σ) (fits : types.Fits missing m.scope)
    (checked : s.check types = (.ok (), types')) {h : Halt}
    (ran : s.exec rounds m = (.error h, m')) : types.Fits missing m'.scope :=
  ((Attempt.ensures_of_error ran).mp (safe typed s types types' m fits checked)).1

end Stmt

namespace Session

variable {σ : Type} [InputSource σ] {rounds : Nat} {before after : Session σ}

/-- A statement that the check accepts leads from one session to the next, however
its run ends. -/
def Accepts (rounds : Nat) (before after : Session σ) : Prop :=
  ∃ s, (before.step rounds s).1.checked = .ok () ∧ (before.step rounds s).2 = after

/-- A statement that the check accepts and that runs to its end does. -/
def Completes (rounds : Nat) (before after : Session σ) : Prop :=
  ∃ s, (before.step rounds s).1.checked = .ok () ∧ (before.step rounds s).1.ran = .ok () ∧
    (before.step rounds s).2 = after

/-- No frame is open, and every value has the type that is recorded for it. -/
structure Steady (session : Session σ) : Prop where
  outermost : session.types.frames = []
  fits : session.types.Fits (fun _ => True) session.machine.scope

omit [InputSource σ] in
theorem steady_start (input : σ) : Steady (start input) :=
  ⟨rfl, .nil, fun _ => .inl rfl⟩

/-- An accepted statement leaves values that fit the types that its check leaves if
it succeeds, and the types from before if it fails. -/
theorem step_fits {missing : String → Prop} {s : Stmt} (typed : InputSource.Typed σ)
    (fits : before.types.Fits missing before.machine.scope)
    (checked : (before.step rounds s).1.checked = .ok ()) :
    ((before.step rounds s).1.ran = .ok () →
      (before.step rounds s).2.types.Fits missing (before.step rounds s).2.machine.scope) ∧
    (∀ h, (before.step rounds s).1.ran = .error h →
      before.types.Fits missing (before.step rounds s).2.machine.scope) := by
  have accepted : s.check before.types = (.ok (), (before.step rounds s).2.types) :=
    Prod.ext checked rfl
  have silenced : before.types.Fits missing { before.machine with output := #[] }.scope := fits
  exact ⟨fun ran => Stmt.fits_of_exec_ok typed silenced accepted (Prod.ext ran rfl),
    fun h ran => Stmt.fits_of_exec_error typed silenced accepted (Prod.ext ran rfl)⟩

theorem Completes.agrees (typed : InputSource.Typed σ)
    (agrees : before.types.Agrees before.machine.scope) (step : Completes rounds before after) :
    after.types.Agrees after.machine.scope := by
  obtain ⟨s, checked, ran, rfl⟩ := step
  rw [Scope.agrees_iff_fits] at agrees ⊢
  exact (step_fits typed agrees checked).1 ran

/-- An accepted statement only adds to the types, and keeps a session steady. -/
theorem Accepts.steady (typed : InputSource.Typed σ) (steady : Steady before)
    (step : Accepts rounds before after) :
    before.types.Grows after.types ∧ Steady after := by
  obtain ⟨s, checked, rfl⟩ := step
  have grown : before.types.Grows (before.step rounds s).2.types :=
    Stmt.onlyDeclares_check s before.types
  obtain ⟨succeeds, fails⟩ := step_fits typed steady.fits checked
  refine ⟨grown, (grown.globals steady.outermost).1, ?_⟩
  cases ran : (before.step rounds s).1.ran with
  | ok u => exact succeeds ran
  | error h =>
      -- The values fit the types from before, and the check has added to those.
      exact (fails h ran).grow steady.outermost grown

/-- What one accepted statement does, any number of them do. -/
theorem steady_of_accepted (typed : InputSource.Typed σ) (steady : Steady before)
    (steps : Relation.ReflTransGen (Accepts rounds) before after) :
    before.types.Grows after.types ∧ Steady after := by
  induction steps with
  | refl => exact ⟨.refl _, steady⟩
  | tail _ step ih =>
      obtain ⟨grown, steady⟩ := ih
      obtain ⟨more, steady⟩ := step.steady typed steady
      exact ⟨grown.trans more, steady⟩

end Session

/-- A checked statement preserves the agreement of types and values, with the types
its check leaves if it succeeds and with those from before if it fails. So the
scopes of a session agree after statements that succeed; and after any that the
check accepts, a variable that has a value has one of the type that it was
declared with, at any point of the session. -/
theorem Stmt.exec_preserves_types {σ : Type} [InputSource σ] (typed : InputSource.Typed σ)
    (rounds : Nat) :
    (∀ (s : Stmt) (types types' : Scope Ty) (m m' : Machine σ) (result : Except Halt Unit),
      types.Agrees m.scope → s.check types = (.ok (), types') →
      s.exec rounds m = (result, m') →
      (result = .ok () → types'.Agrees m'.scope) ∧
      (∀ h, result = .error h → types.Agrees m'.scope)) ∧
    (∀ before after : Session σ, before.types.Agrees before.machine.scope →
      Relation.ReflTransGen (Session.Completes rounds) before after →
      after.types.Agrees after.machine.scope) ∧
    (∀ (input : σ) (middle after : Session σ),
      Relation.ReflTransGen (Session.Accepts rounds) (Session.start input) middle →
      Relation.ReflTransGen (Session.Accepts rounds) middle after →
      ∀ name v, after.machine.scope.get? name = some v →
        after.types.get? name = some v.ty ∧
        ∀ ty, middle.types.get? name = some ty → v.ty = ty) := by
  refine ⟨?_, ?_, ?_⟩
  · intro s types types' m m' result agrees checked ran
    rw [Scope.agrees_iff_fits] at agrees
    refine ⟨?_, ?_⟩
    · rintro rfl
      exact Scope.agrees_iff_fits.mpr (fits_of_exec_ok typed agrees checked ran)
    · rintro h rfl
      exact Scope.agrees_iff_fits.mpr (fits_of_exec_error typed agrees checked ran)
  · intro before after agrees steps
    induction steps with
    | refl => exact agrees
    | tail _ step ih => exact step.agrees typed ih
  · intro input middle after first rest name v bound
    obtain ⟨_, steady⟩ := Session.steady_of_accepted typed (Session.steady_start input) first
    obtain ⟨grown, steady'⟩ := Session.steady_of_accepted typed steady rest
    have recorded : after.types.get? name = some v.ty := steady'.fits.ty_eq bound
    refine ⟨recorded, fun ty declared => ?_⟩
    have kept := (grown.globals steady.outermost).2 name ty declared
    rw [recorded] at kept
    exact Option.some.inj kept

/-- A session that has read a truth value. -/
def Session.afterReading : Session Queue :=
  ⟨⟨[], [("x", .bool)]⟩, ⟨⟨[], [("x", .bool true)]⟩, [], #[]⟩⟩

/-- A loop whose second round declares the name once more. -/
def Stmt.declaringLoop : Stmt := .loop (.bool true) (.declare "x" (.num 1))

/-- The loop fails and leaves the outer variable as it was, so the session can go on
with it. -/
theorem Stmt.declaringLoop_preserves_types :
    (declaringLoop.exec 2 Session.afterReading.machine).1 =
      .error (.failed (.scope (.duplicate "x"))) ∧
    Session.afterReading.types.Agrees
      (declaringLoop.exec 2 Session.afterReading.machine).2.scope ∧
    ∃ after : Session Queue,
      Relation.ReflTransGen (Session.Accepts 2) (Session.start [.bool true]) after ∧
      after.machine.scope.get? "x" = some (.bool true) ∧ after.types.get? "x" = some .bool := by
  have preserves := exec_preserves_types Queue.typed 2
  have first : Session.Completes 2 (Session.start [.bool true]) Session.afterReading :=
    ⟨.declare "x" (.input .bool), rfl, rfl, rfl⟩
  have agrees : Session.afterReading.types.Agrees Session.afterReading.machine.scope :=
    preserves.2.1 _ _ Scope.agrees_empty (.single first)
  refine ⟨rfl, (preserves.1 declaringLoop _ _ _ _ _ agrees rfl rfl).2 _ rfl, ?_⟩
  have accepted : Relation.ReflTransGen (Session.Accepts 2) (Session.start [.bool true])
      Session.afterReading := .single ⟨.declare "x" (.input .bool), rfl, rfl⟩
  have steps := accepted.tail ⟨declaringLoop, rfl, rfl⟩
  exact ⟨_, steps, rfl, (preserves.2.2 _ _ _ steps .refl "x" (.bool true) rfl).1⟩

end Scriptlet
