import Scriptlet.Proofs.Exec.Reach
import Scriptlet.Proofs.Scope.Agreement
import Scriptlet.Proofs.Typing.Checking
import Scriptlet.Proofs.Typing.Prediction

/-!
# How a checked program runs

A check and a run open and close frames at different places, and a check visits
the body of a loop once where a run visits it any number of times in one frame.
Even so the scope of types and the scope of values stay in step, and all failures
but those of input have one source: a loop whose body is a bare declaration. Its
first round leaves a name in the frame of the loop, so a second round cannot
declare it, and reads it where the check read an outer variable of that name.
-/

namespace Scriptlet

/-- Errors that no check can foresee: those of input, and uses of a variable that
is recorded without a value. -/
def RuntimeError.Excused (missing : String → Prop) : RuntimeError → Prop
  | .input _ => True
  | .scope (.undefined name) | .scope (.undeclared name) => missing name
  | _ => False

namespace Stmt

variable {σ : Type} [InputSource σ] {missing : String → Prop} {rounds : Nat}
variable {types types' : Scope Ty} {m m₁ : Machine σ} {e : Expr} {ty : Ty} {v : Value} {h : Halt}

/-- A loop whose body is a bare declaration breaks off in its second round. Either
the name is declared again, or the condition or the value mentions it and finds
it at another type than in the first round. -/
def BreaksAgain (rounds : Nat) (condition : Expr) (name : String) (value : Expr)
    (m : Machine σ) (h : Halt) : Prop :=
  2 ≤ rounds ∧ ∃ m₁ m₂,
    Run.Rounds (Run.eval condition) ((Stmt.declare name value).exec rounds) 1 m.inner m₁ ∧
    Run.RoundFails (Run.eval condition) ((Stmt.declare name value).exec rounds) m₁ h m₂ ∧
    (h = .failed (.scope (.duplicate name)) ∨
      ∃ fault, h = .failed (.type fault) ∧ (name ∈ condition.names ∨ name ∈ value.names) ∧
        (m.scope.get? name).map Value.ty ≠ (m₁.scope.get? name).map Value.ty)

/-- What can stop a checked statement. -/
inductive Explained (missing : String → Prop) (rounds : Nat) (s : Stmt) (m : Machine σ) :
    Halt → Prop
  | unfinished : Explained missing rounds s m .unfinished
  | excused {e : RuntimeError} : e.Excused missing → Explained missing rounds s m (.failed e)
  | secondRound {condition value : Expr} {name : String} {m' : Machine σ} {h : Halt} :
      Reaches rounds (s, m) (.loop condition (.declare name value), m') →
      BreaksAgain rounds condition name value m' h → Explained missing rounds s m h

/-- What stops a part stops the whole. -/
theorem Explained.enter {s t : Stmt} (enters : Enters rounds (s, m) (t, m₁))
    (explained : Explained missing rounds t m₁ h) : Explained missing rounds s m h := by
  cases explained with
  | unfinished => exact .unfinished
  | excused excuse => exact .excused excuse
  | secondRound reaches breaks => exact .secondRound (.head enters reaches) breaks

/-- Evaluation ends as inference says, and changes nothing but the input. -/
theorem eval_foretold (typed : InputSource.Typed σ) (fits : types.Fits missing m.scope)
    (e : Expr) :
    (Run.eval e).Ensures m
      (fun v m' => e.infer types = .ok v.ty ∧ m'.scope = m.scope)
      (fun h m' => (∃ err, h = .failed err ∧
        Foretold (RuntimeError.Excused missing) (e.infer types) (.error err)) ∧
        m'.scope = m.scope) := by
  have foretold : Foretold (RuntimeError.Excused missing) (e.infer types)
      (e.eval m.scope m.input).1 :=
    Expr.eval_foretold typed (fun _ _ _ _ => trivial) fits.get? e m.input
  unfold Attempt.Ensures Run.eval
  generalize e.eval m.scope m.input = outcome at foretold
  obtain ⟨err | v, input⟩ := outcome
  · exact ⟨⟨err, rfl, foretold⟩, rfl⟩
  · generalize e.infer types = inferred at foretold
    cases foretold
    exact ⟨rfl, rfl⟩

/-- An expression with a type has a value of it. -/
theorem eval_ok (typed : InputSource.Typed σ) (fits : types.Fits missing m.scope)
    (inferred : e.infer types = .ok ty) (ran : Run.eval e m = (.ok v, m₁)) :
    v.ty = ty ∧ types.Fits missing m₁.scope := by
  obtain ⟨same, scope⟩ := (Attempt.ensures_of_ok ran).mp (eval_foretold typed fits e)
  rw [inferred] at same
  rw [scope]
  exact ⟨(Except.ok.inj same).symm, fits⟩

/-- An expression with a type fails only for reasons that no type shows. -/
theorem eval_error (typed : InputSource.Typed σ) (fits : types.Fits missing m.scope)
    (inferred : e.infer types = .ok ty) (ran : Run.eval e m = (.error h, m₁)) :
    types.Fits missing m₁.scope ∧
      ∀ (s : Stmt) (m₀ : Machine σ), Explained missing rounds s m₀ h := by
  obtain ⟨⟨err, rfl, foretold⟩, scope⟩ :=
    (Attempt.ensures_of_error ran).mp (eval_foretold typed fits e)
  rw [inferred] at foretold
  rw [scope]
  cases foretold with
  | excused excuse => exact ⟨fits, fun _ _ => .excused excuse⟩

variable (σ) in
/-- A checked statement keeps the scopes in step, and what stops it is explained. -/
def Safe (missing : String → Prop) (rounds : Nat) (s : Stmt) : Prop :=
  ∀ (types types' : Scope Ty) (m : Machine σ), types.Fits missing m.scope →
    s.check types = (.ok (), types') →
    (s.exec rounds).Ensures m (fun _ m' => types'.Fits missing m'.scope)
      (fun h m' => types.Fits missing m'.scope ∧ Explained missing rounds s m h)

theorem safe_declare (typed : InputSource.Typed σ) (name : String) (value : Expr) :
    Safe σ missing rounds (.declare name value) := by
  intro types types' m fits checked
  obtain ⟨ty, inferred, declared⟩ := check_declare_iff.mp checked
  refine Attempt.ensures_bind_of (fun v m₁ ran => ?_) fun h m₁ ran => ?_
  · obtain ⟨rfl, fits₁⟩ := eval_ok typed fits inferred ran
    obtain ⟨values, changed, fits'⟩ := fits₁.declare declared
    exact (Attempt.ensures_of_ok (Run.rescope_of_ok changed)).mpr fits'
  · obtain ⟨fits₁, explained⟩ := eval_error typed fits inferred ran
    exact ⟨fits₁, explained _ m⟩

theorem safe_assign (typed : InputSource.Typed σ) (name : String) (value : Expr) :
    Safe σ missing rounds (.assign name value) := by
  intro types types' m fits checked
  obtain ⟨⟨ty, known, inferred⟩, rfl⟩ := check_assign_iff.mp checked
  refine Attempt.ensures_bind_of (fun v m₁ ran => ?_) fun h m₁ ran => ?_
  · obtain ⟨rfl, fits₁⟩ := eval_ok typed fits inferred ran
    rcases fits₁.update known with ⟨values, changed, fits'⟩ | ⟨absent, failed⟩
    · exact (Attempt.ensures_of_ok (Run.rescope_of_ok changed)).mpr fits'
    · have excuse : RuntimeError.Excused missing (.scope (.undeclared name)) := absent
      exact (Attempt.ensures_of_error (Run.rescope_of_error failed)).mpr
        ⟨fits₁, .excused excuse⟩
  · obtain ⟨fits₁, explained⟩ := eval_error typed fits inferred ran
    exact ⟨fits₁, explained _ m⟩

theorem safe_print (typed : InputSource.Typed σ) (value : Expr) :
    Safe σ missing rounds (.print value) := by
  intro types types' m fits checked
  obtain ⟨⟨ty, inferred⟩, rfl⟩ := check_print_iff.mp checked
  refine Attempt.ensures_bind_of (fun v m₁ ran => ?_) fun h m₁ ran => ?_
  · obtain ⟨_, fits₁⟩ := eval_ok typed fits inferred ran
    exact fits₁
  · obtain ⟨fits₁, explained⟩ := eval_error typed fits inferred ran
    exact ⟨fits₁, explained _ m⟩

/-- The values fit what declarations have made of a frame on top of the types. -/
def FitsInside (missing : String → Prop) (types : Scope Ty) (values : Scope Value) : Prop :=
  ∃ inner, types.push.Grows inner ∧ inner.Fits missing values

theorem FitsInside.of_fits {values : Scope Value} (fits : types.push.Fits missing values) :
    FitsInside missing types values := ⟨types.push, .refl _, fits⟩

/-- Taking the frame away leads back to the types that were there before. -/
theorem FitsInside.pop {values : Scope Value} (fits : FitsInside missing types values) :
    ∃ outer, values.pop = .ok outer ∧ types.Fits missing outer := by
  obtain ⟨inner, grown, fits⟩ := fits
  exact fits.pop grown.pop

omit [InputSource σ] in
theorem within_ensures {body : Run σ Unit} {explained : Halt → Prop}
    (inside : body.Ensures m.inner (fun _ m' => FitsInside missing types m'.scope)
      (fun h m' => FitsInside missing types m'.scope ∧ explained h)) :
    (Run.within body).Ensures m (fun _ m' => types.Fits missing m'.scope)
      (fun h m' => types.Fits missing m'.scope ∧ explained h) := by
  cases ran : body m.inner with
  | mk result m₁ =>
      cases result with
      | ok u =>
          obtain ⟨outer, popped, fits⟩ := FitsInside.pop ((Attempt.ensures_of_ok ran).mp inside)
          exact (Attempt.ensures_of_ok (Run.within_of_pop ran popped)).mpr fits
      | error h =>
          obtain ⟨fits, explains⟩ := (Attempt.ensures_of_error ran).mp inside
          obtain ⟨outer, popped, fits⟩ := fits.pop
          exact (Attempt.ensures_of_error (Run.within_of_pop ran popped)).mpr ⟨fits, explains⟩

/-- A part that was checked in a frame of its own and is run in one. -/
theorem Safe.part {s t : Stmt} {inner : Scope Ty} (safe : Safe σ missing rounds t)
    (enters : Enters rounds (s, m) (t, m₁)) (fits : types.push.Fits missing m₁.scope)
    (checked : t.check types.push = (.ok (), inner)) :
    (t.exec rounds).Ensures m₁ (fun _ m' => FitsInside missing types m'.scope)
      (fun h m' => FitsInside missing types m'.scope ∧ Explained missing rounds s m h) := by
  have grown := onlyDeclares_check t types.push
  rw [checked] at grown
  refine (safe types.push inner m₁ fits checked).mono (fun _ m' fits' => ?_) fun h m' failed => ?_
  · exact ⟨inner, grown, fits'⟩
  · exact ⟨.of_fits failed.1, failed.2.enter enters⟩

theorem Safe.option {s : Stmt} {t : Option Stmt}
    (safe : ∀ u, t = some u → Safe σ missing rounds u)
    (enters : ∀ u, t = some u → Enters rounds (s, m) (u, m₁))
    (fits : types.push.Fits missing m₁.scope)
    (checked : ∀ u, t = some u → ∃ inner, u.check types.push = (.ok (), inner)) :
    (execOption rounds t).Ensures m₁ (fun _ m' => FitsInside missing types m'.scope)
      (fun h m' => FitsInside missing types m'.scope ∧ Explained missing rounds s m h) := by
  cases t with
  | none => exact FitsInside.of_fits fits
  | some u =>
      obtain ⟨inner, checked⟩ := checked u rfl
      exact (safe u rfl).part (enters u rfl) fits checked

/-- Statements one after the other. The one that stops them is run after those
before it have succeeded. -/
theorem execAll_ensures {body : List Stmt} (safe : ∀ s ∈ body, Safe σ missing rounds s)
    (fits : types.Fits missing m.scope) (checked : checkAll body types = (.ok (), types')) :
    (execAll rounds body).Ensures m (fun _ m' => types'.Fits missing m'.scope)
      (fun h m' => (∃ grown, types.Grows grown ∧ grown.Fits missing m'.scope) ∧
        ∃ before s after m₁, body = before ++ s :: after ∧
          execAll rounds before m = (.ok (), m₁) ∧ Explained missing rounds s m₁ h) := by
  induction body generalizing types m with
  | nil =>
      cases checked
      exact fits
  | cons s rest ih =>
      obtain ⟨safeHead, safeRest⟩ := List.forall_mem_cons.mp safe
      obtain ⟨middle, checkedHead, checkedRest⟩ := checkAll_cons_iff.mp checked
      have grown := onlyDeclares_check s types
      rw [checkedHead] at grown
      have head := Attempt.ensures_iff.mp (safeHead types middle m fits checkedHead)
      refine Attempt.ensures_bind_of (fun u m₁ ran => ?_) fun h m₁ ran => ?_
      · refine (ih safeRest (head.1 u m₁ ran) checkedRest).mono (fun _ _ done => done) ?_
        rintro h m' ⟨⟨further, more, fits'⟩, before, t, after, m₂, rfl, sofar, explained⟩
        refine ⟨⟨further, grown.trans more, fits'⟩, s :: before, t, after, m₂, rfl, ?_, explained⟩
        exact (Attempt.bind_ok ran _).trans sofar
      · obtain ⟨fits', explained⟩ := head.2 h m₁ ran
        exact ⟨⟨types, .refl _, fits'⟩, [], s, rest, m, rfl, rfl, explained⟩

theorem safe_block {body : List Stmt} (safe : ∀ s ∈ body, Safe σ missing rounds s) :
    Safe σ missing rounds (.block body) := by
  intro types types' m fits checked
  obtain ⟨⟨inner, checked⟩, rfl⟩ := check_block_iff.mp checked
  have grown : types'.push.Grows (checkAll body types'.push).2 :=
    onlyDeclares_checkAll body types'.push
  rw [checked] at grown
  refine within_ensures ((execAll_ensures safe fits.push checked).mono ?_ ?_)
  · intro _ m' fits'
    exact ⟨inner, grown, fits'⟩
  · rintro h m' ⟨inside, before, s, after, m₁, rfl, sofar, explained⟩
    exact ⟨inside, explained.enter (.block sofar)⟩

theorem safe_branch (typed : InputSource.Typed σ) {condition : Expr} {onTrue : Stmt}
    {onFalse : Option Stmt} (safeTrue : Safe σ missing rounds onTrue)
    (safeFalse : ∀ s, onFalse = some s → Safe σ missing rounds s) :
    Safe σ missing rounds (.branch condition onTrue onFalse) := by
  intro types types' m fits checked
  obtain ⟨inferred, ⟨inner, checkedTrue⟩, checkedFalse, rfl⟩ := check_branch_iff.mp checked
  rw [← Expr.infer_push] at inferred
  refine within_ensures (Attempt.ensures_bind_of (fun v m₁ ran => ?_) fun h m₁ ran => ?_)
  · obtain ⟨_, fits₁⟩ := eval_ok typed fits.push inferred ran
    cases truthy : v.truthy with
    | true => exact safeTrue.part (.onTrue ran truthy) fits₁ checkedTrue
    | false =>
        refine Safe.option safeFalse (fun u present => ?_) fits₁ checkedFalse
        subst present
        exact .onFalse ran truthy
  · obtain ⟨fits₁, explained⟩ := eval_error typed fits.push inferred ran
    exact ⟨.of_fits fits₁, explained _ m⟩

theorem safe_switch (typed : InputSource.Typed σ) {focus : Expr} {cases : Cases Stmt}
    {fallback : Option Stmt} (safeCases : ∀ entry ∈ cases.entries, Safe σ missing rounds entry.2)
    (safeFallback : ∀ s, fallback = some s → Safe σ missing rounds s) :
    Safe σ missing rounds (.switch focus cases fallback) := by
  intro types types' m fits checked
  obtain ⟨⟨ty, inferred, checkedCases⟩, checkedFallback, rfl⟩ := check_switch_iff.mp checked
  obtain ⟨entries⟩ := cases
  rw [← Expr.infer_push] at inferred
  refine within_ensures (Attempt.ensures_bind_of (fun v m₁ ran => ?_) fun h m₁ ran => ?_)
  · obtain ⟨_, fits₁⟩ := eval_ok typed fits.push inferred ran
    rw [execCase_eq]
    cases found : (Cases.mk entries).get? v with
    | some s =>
        obtain ⟨label, member⟩ := Cases.exists_mem_of_get? found
        obtain ⟨_, inner, checkedCase⟩ := checkedCases (label, s) member
        exact (safeCases (label, s) member).part (.case ran found) fits₁ checkedCase
    | none =>
        refine Safe.option safeFallback (fun u present => ?_) fits₁ checkedFallback
        subst present
        exact .fallback ran found
  · obtain ⟨fits₁, explained⟩ := eval_error typed fits.push inferred ran
    exact ⟨.of_fits fits₁, explained _ m⟩

/-- A body that is not a declaration leaves the frame of the loop as it was, so
every round starts with the scopes in step. -/
theorem safe_loop (typed : InputSource.Typed σ) {condition : Expr} {body : Stmt}
    (other : ∀ name value, body ≠ .declare name value) (safe : Safe σ missing rounds body) :
    Safe σ missing rounds (.loop condition body) := by
  intro types types' m fits checked
  obtain ⟨inferred, ⟨inner, checked⟩, rfl⟩ := check_loop_iff.mp checked
  have same : inner = types'.push := by
    have keeps := keeps_check other types'.push
    rwa [checked] at keeps
  subst same
  refine within_ensures (Run.repeatWhile_ensures
    (fun _ m' => types'.push.Fits missing m'.scope) fits.push ?_ ?_)
  · intro k m₁ fits₁
    exact ⟨.of_fits fits₁, .unfinished⟩
  · intro k m₁ allowed sofar fits₁
    refine Attempt.ensures_iff.mpr ⟨fun v m₂ ran => ?_, fun h m₂ ran => ?_⟩
    · obtain ⟨_, fits₂⟩ := eval_ok typed fits₁ inferred ran
      refine ⟨fun truthy => ?_, fun _ => .of_fits fits₂⟩
      refine (safe _ _ m₂ fits₂ checked).mono (fun _ _ fits₃ => fits₃) fun h m₃ failed => ?_
      exact ⟨.of_fits failed.1, failed.2.enter (.round allowed sofar ran truthy)⟩
    · obtain ⟨fits₂, explained⟩ := eval_error typed fits₁ inferred ran
      exact ⟨.of_fits fits₂, explained _ m⟩

/-- A declaration changes what an expression is only if it mentions the name and
had it at another type. -/
theorem retyped_of_infer_error {name : String} {inner : Scope Ty} {fault : StaticError}
    {ty' : Ty} (declared : types.declare name ty = .ok inner) (before : e.infer types = .ok ty')
    (after : e.infer inner = .error fault) : name ∈ e.names ∧ types.get? name ≠ some ty := by
  have differ : ¬ ∀ x ∈ e.names, types.get? x = inner.get? x := by
    intro same
    rw [← Expr.infer_congr e same, before] at after
    cases after
  refine ⟨?_, fun known => differ fun x _ => ?_⟩
  · by_contra absent
    refine differ fun x member => ?_
    have other : x ≠ name := fun same => absent (same ▸ member)
    rw [Scope.get?_declare declared, if_neg other]
  · rw [Scope.get?_declare declared]
    by_cases same : x = name
    · rw [if_pos same, same, known]
    · rw [if_neg same]

/-- An expression that had a type before a declaration has one after it too, or
mentions the name and meets it at a type that breaks it. -/
theorem eval_after_declare (typed : InputSource.Typed σ) {name : String} {inner : Scope Ty}
    {ty' : Ty} (declared : types.declare name ty = .ok inner)
    (inferred : e.infer types = .ok ty') (fits : inner.Fits missing m.scope)
    (ran : Run.eval e m = (.error h, m₁)) :
    m₁.scope = m.scope ∧
      ((∃ err, h = .failed err ∧ err.Excused missing) ∨
        ∃ fault, h = .failed (.type fault) ∧ name ∈ e.names ∧ types.get? name ≠ some ty) := by
  obtain ⟨⟨err, rfl, foretold⟩, scope⟩ :=
    (Attempt.ensures_of_error ran).mp (eval_foretold typed fits e)
  refine ⟨scope, ?_⟩
  generalize after : e.infer inner = found at foretold
  cases foretold with
  | scope cause =>
      refine absurd after (Expr.infer_ne_scope inferred (fun x bound => ?_) cause)
      rw [Scope.get?_declare declared]
      split
      · rfl
      · exact bound
  | fault expected actual cause =>
      exact .inr ⟨cause, rfl, retyped_of_infer_error declared inferred after⟩
  | excused excuse => exact .inl ⟨err, rfl, excuse⟩

/-- What holds between the rounds of a loop whose body declares `name` at `ty`:
one round leaves the name behind, and no second round is ever completed. -/
def BetweenDeclarations (missing : String → Prop) (types : Scope Ty) (name : String) (ty : Ty) :
    Nat → Machine σ → Prop
  | 0, m => types.push.Fits missing m.scope
  | 1, m => (types.push.bindTop name ty).Fits missing m.scope ∧
      (m.scope.get? name).map Value.ty = some ty ∧
      ∀ v, m.scope.declare name v = .error (.duplicate name)
  | _, _ => False

/-- The first round of such a loop. -/
theorem declare_firstRound (typed : InputSource.Typed σ) {name : String} {value : Expr}
    (inferred : value.infer types.push = .ok ty)
    (declared : types.push.declare name ty = .ok (types.push.bindTop name ty))
    (fits : types.push.Fits missing m.scope) :
    ((Stmt.declare name value).exec rounds).Ensures m
      (fun _ m' => BetweenDeclarations missing types name ty 1 m')
      (fun h m' => types.push.Fits missing m'.scope ∧
        ∀ (s : Stmt) (m₀ : Machine σ), Explained missing rounds s m₀ h) := by
  refine Attempt.ensures_bind_of (fun v m₁ ran => ?_) fun h m₁ ran => ?_
  · obtain ⟨rfl, fits₁⟩ := eval_ok typed fits inferred ran
    obtain ⟨values, changed, fits'⟩ := fits₁.declare declared
    refine (Attempt.ensures_of_ok (Run.rescope_of_ok changed)).mpr ⟨fits', ?_, ?_⟩
    · simp [Scope.get?_declare changed]
    · exact Scope.declare_of_declare changed
  · exact eval_error typed fits inferred ran

/-- Where an evaluation in the second round fails, the loop is explained by it. -/
theorem explained_of_secondRound (typed : InputSource.Typed σ) {condition value : Expr}
    {name : String} {ty' : Ty} {m₂ m₃ : Machine σ} (fits : types.Fits missing m.scope)
    (declared : types.push.declare name ty = .ok (types.push.bindTop name ty))
    (between : BetweenDeclarations missing types name ty 1 m₁) (allowed : 1 < rounds)
    (sofar : Run.Rounds (Run.eval condition) ((Stmt.declare name value).exec rounds) 1 m.inner m₁)
    (inferred : e.infer types.push = .ok ty')
    (mentions : name ∈ e.names → name ∈ condition.names ∨ name ∈ value.names)
    (same : m₂.scope = m₁.scope) (ran : Run.eval e m₂ = (.error h, m₃))
    (failing : Run.RoundFails (Run.eval condition) ((Stmt.declare name value).exec rounds)
      m₁ h m₃) :
    m₃.scope = m₁.scope ∧
      Explained missing rounds (.loop condition (.declare name value)) m h := by
  obtain ⟨fits₁, known, _⟩ := between
  rw [← same] at fits₁
  obtain ⟨scope, cause⟩ := eval_after_declare typed declared inferred fits₁ ran
  refine ⟨scope.trans same, ?_⟩
  rcases cause with ⟨err, rfl, excuse⟩ | ⟨fault, rfl, member, retyped⟩
  · exact .excused excuse
  · have changed : (m.scope.get? name).map Value.ty ≠ (m₁.scope.get? name).map Value.ty := by
      rw [known]
      rw [Scope.get?_push] at retyped
      rcases fits.get? name with recorded | ⟨absent, _⟩
      · rwa [recorded]
      · simp [absent]
    exact .secondRound .refl ⟨allowed, m₁, m₃, sofar, failing,
      .inr ⟨fault, rfl, mentions member, changed⟩⟩

/-- The second round of such a loop: it ends the loop or fails, because the name
cannot be declared again. -/
theorem declare_secondRound (typed : InputSource.Typed σ) {condition value : Expr}
    {name : String} (inferred : condition.infer types.push = .ok .bool)
    (inferredValue : value.infer types.push = .ok ty)
    (declared : types.push.declare name ty = .ok (types.push.bindTop name ty))
    (fits : types.Fits missing m.scope)
    (between : BetweenDeclarations missing types name ty 1 m₁) (allowed : 1 < rounds)
    (sofar : Run.Rounds (Run.eval condition) ((Stmt.declare name value).exec rounds) 1
      m.inner m₁) :
    (Run.eval condition).Ensures m₁
      (fun v m₂ => (v.truthy = true → ((Stmt.declare name value).exec rounds).Ensures m₂
        (fun _ _ => False) (fun h m₃ => m₃.scope = m₁.scope ∧
          Explained missing rounds (.loop condition (.declare name value)) m h)) ∧
        m₂.scope = m₁.scope)
      (fun h m₂ => m₂.scope = m₁.scope ∧
        Explained missing rounds (.loop condition (.declare name value)) m h) := by
  refine Attempt.ensures_iff.mpr ⟨fun v m₂ ran => ?_, fun h m₂ ran => ?_⟩
  · have scope : m₂.scope = m₁.scope := Run.scope_of_eval ran
    refine ⟨fun truthy => Attempt.ensures_bind_of (fun w m₃ ranValue => ?_) ?_, scope⟩
    · have kept : m₃.scope = m₁.scope := (Run.scope_of_eval ranValue).trans scope
      have refused : Run.rescope (·.declare name w) m₃ =
          (.error (.failed (.scope (.duplicate name))), m₃) :=
        Run.rescope_of_error (kept ▸ between.2.2 w)
      have failing : Run.RoundFails (Run.eval condition) ((Stmt.declare name value).exec rounds)
          m₁ (.failed (.scope (.duplicate name))) m₃ :=
        .inr ⟨v, m₂, ran, truthy, (Attempt.bind_ok ranValue _).trans refused⟩
      refine (Attempt.ensures_of_error refused).mpr ⟨kept, ?_⟩
      exact .secondRound .refl ⟨allowed, m₁, m₃, sofar, failing, .inl rfl⟩
    · intro h m₃ ranValue
      have failing : Run.RoundFails (Run.eval condition) ((Stmt.declare name value).exec rounds)
          m₁ h m₃ := .inr ⟨v, m₂, ran, truthy, Attempt.bind_error ranValue _⟩
      exact explained_of_secondRound typed fits declared between allowed sofar inferredValue
        .inr scope ranValue failing
  · exact explained_of_secondRound typed fits declared between allowed sofar inferred
      .inl rfl ran (.inl ran)

theorem safe_loop_declare (typed : InputSource.Typed σ) (condition : Expr) (name : String)
    (value : Expr) : Safe σ missing rounds (.loop condition (.declare name value)) := by
  intro types types' m fits checked
  obtain ⟨inferred, ⟨inner, checked⟩, rfl⟩ := check_loop_iff.mp checked
  obtain ⟨ty, inferredValue, declared⟩ := check_declare_iff.mp checked
  obtain ⟨_, rfl⟩ := Scope.declare_eq_ok_iff.mp declared
  have inside : ∀ k (m' : Machine σ), BetweenDeclarations missing types' name ty k m' →
      FitsInside missing types' m'.scope := by
    intro k m' between
    match k, between with
    | 0, fits₁ => exact .of_fits fits₁
    | 1, ⟨fits₁, _⟩ => exact ⟨_, .declare declared, fits₁⟩
  refine within_ensures (Run.repeatWhile_ensures
    (BetweenDeclarations missing types' name ty) fits.push ?_ ?_)
  · intro k m₁ between
    exact ⟨inside k m₁ between, .unfinished⟩
  · intro k m₁ allowed sofar between
    match k, between with
    | 0, fits₁ =>
        refine Attempt.ensures_iff.mpr ⟨fun v m₂ ran => ?_, fun h m₂ ran => ?_⟩
        · obtain ⟨_, fits₂⟩ := eval_ok typed fits₁ inferred ran
          refine ⟨fun _ => ?_, fun _ => .of_fits fits₂⟩
          refine (declare_firstRound typed inferredValue declared fits₂).mono
            (fun _ _ done => done) fun h m₃ failed => ?_
          exact ⟨.of_fits failed.1, failed.2 _ m⟩
        · obtain ⟨fits₂, explained⟩ := eval_error typed fits₁ inferred ran
          exact ⟨.of_fits fits₂, explained _ m⟩
    | 1, between =>
        -- No round after this one: what is left to show is where the scope stands.
        have fits₁ := inside 1 m₁ between
        refine (declare_secondRound typed inferred inferredValue declared fits between allowed
          sofar).mono (fun v m₂ round => ?_) fun h m₂ failed => ⟨failed.1 ▸ fits₁, failed.2⟩
        refine ⟨fun truthy => ?_, fun _ => round.2 ▸ fits₁⟩
        refine (round.1 truthy).mono (fun _ _ never => never.elim) fun h m₃ failed => ?_
        exact ⟨failed.1 ▸ fits₁, failed.2⟩

/-- Every checked statement keeps the scopes in step and fails only for one of the
reasons in `Explained`. -/
theorem safe (typed : InputSource.Typed σ) (s : Stmt) : Safe σ missing rounds s := by
  induction s with
  | declare name value => exact safe_declare typed name value
  | assign name value => exact safe_assign typed name value
  | print value => exact safe_print typed value
  | block body parts => exact safe_block parts
  | branch condition onTrue onFalse atTrue atFalse => exact safe_branch typed atTrue atFalse
  | loop condition body atBody =>
      by_cases declaration : ∃ name value, body = .declare name value
      · obtain ⟨name, value, rfl⟩ := declaration
        exact safe_loop_declare typed condition name value
      · exact safe_loop typed (fun name value same => declaration ⟨name, value, same⟩) atBody
  | switch focus cases fallback atCases atFallback => exact safe_switch typed atCases atFallback

end Stmt
end Scriptlet
