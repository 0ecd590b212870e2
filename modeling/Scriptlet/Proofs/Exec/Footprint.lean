import Scriptlet.Proofs.Exec.Parallel
import Scriptlet.Proofs.Scope.Bindings

/-!
# What a run may touch

A statement gives back the frames it opens and leaves the others as they are, but for
two things: a declaration makes an entry in the innermost frame, and an assignment in
it, at any depth, may change the entry that its name had before the statement. Hidden
entries never change. Output is only ever printed behind earlier output. All of this
holds whether the statement succeeds or fails, and whether or not it was checked.
-/

namespace Scriptlet

variable {σ : Type} [InputSource σ]

/-- Evaluation takes no frame away, so it never misses one. -/
theorem Expr.eval_framed (scope : Scope Value) (e : Expr) (input : σ) :
    (e.eval scope).Ensures input (fun _ _ => True) fun e _ => e ≠ .scope .noFrame := by
  have onOperands (x : Except TypeFault Value) (input : σ) :
      (Attempt.query fun _ => x.mapError RuntimeError.type).Ensures input (fun _ _ => True)
        fun e _ => e ≠ .scope .noFrame := by
    cases x with
    | ok v => trivial
    | error fault => exact nofun
  induction e generalizing input with
  | num x => trivial
  | bool b => trivial
  | var name =>
      unfold eval Scope.lookup
      cases scope.get? name with
      | some v => trivial
      | none => exact nofun
  | input ty =>
      unfold eval Attempt.Ensures Attempt.mapError
      rcases InputSource.read ty input with ⟨_ | _, _⟩
      · exact nofun
      · trivial
  | unary op operand ih =>
      rw [eval, Attempt.ensures_bind]
      exact (ih input).mono (fun _ input' _ => onOperands _ input') fun _ _ framed => framed
  | binary op left right atLeft atRight =>
      rw [eval, Attempt.ensures_bind]
      refine (atLeft input).mono (fun l input' _ => ?_) fun _ _ framed => framed
      rw [Attempt.ensures_bind]
      exact (atRight input').mono (fun _ input'' _ => onOperands _ input'') fun _ _ framed => framed

namespace Run

/-- The run does to the scope what declarations, and updates of some names, can do, and
never misses a frame. -/
def Touches (assigned : String → Prop) {α : Type} (x : Run σ α) : Prop :=
  ∀ m, Scope.Touched assigned m.scope (x m).2.scope ∧
    (x m).1 ≠ .error (.failed (.scope .noFrame))

variable {assigned : String → Prop}

omit [InputSource σ] in
theorem touches_rescope {f : Scope Value → Except ScopeError (Scope Value)}
    (touched : ∀ scope scope', f scope = .ok scope' → Scope.Touched assigned scope scope')
    (framed : ∀ scope, f scope ≠ .error .noFrame) :
    Touches assigned (rescope f : Run σ Unit) := by
  intro m
  cases changed : f m.scope with
  | ok scope =>
      rw [rescope_of_ok changed]
      exact ⟨touched m.scope scope changed, nofun⟩
  | error e =>
      rw [rescope_of_error changed]
      refine ⟨.refl _, ?_⟩
      rintro ⟨⟩
      exact framed m.scope changed

omit [InputSource σ] in
/-- Around a frame that is taken away again, all frames bind the same names. -/
theorem Touches.within {x : Run σ Unit} (inner : Touches assigned x) (m : Machine σ) :
    (Scope.Touched assigned m.scope (within x m).2.scope ∧
      (within x m).1 ≠ .error (.failed (.scope .noFrame))) ∧
    m.scope.SameNames (within x m).2.scope := by
  obtain ⟨touched, framed⟩ := inner m.inner
  obtain ⟨outer, popped, -⟩ := Scope.exists_pop (Nat.succ_pos _) touched.depth
  have ran : x m.inner = ((x m.inner).1, (x m.inner).2) := rfl
  rw [within_of_pop ran popped]
  exact ⟨⟨touched.pop popped, framed⟩, touched.sameNames popped⟩

theorem touches_parallel (assigned : String → Prop) :
    Parallel (σ := σ) (τ := σ) fun x _ => Touches assigned x where
  pure a := fun _ => ⟨.refl _, nofun⟩
  bind {_ _ x _ f _} first next := by
    intro m
    have atFirst := first m
    rw [Attempt.bind_apply]
    generalize x m = outcome at atFirst ⊢
    obtain ⟨h | a, m'⟩ := outcome
    · exact ⟨atFirst.1, fun same => atFirst.2 (by cases same; rfl)⟩
    · obtain ⟨touched, framed⟩ := next a m'
      exact ⟨atFirst.1.trans touched, framed⟩
  within inner := fun m => (inner.within m).1
  eval e := by
    intro m
    refine ⟨(scope_eval e m).symm ▸ .refl _, ?_⟩
    have framed := e.eval_framed m.scope m.input
    unfold Attempt.Ensures at framed
    unfold Run.eval
    generalize e.eval m.scope m.input = outcome at framed ⊢
    obtain ⟨e | v, input⟩ := outcome
    · rintro ⟨⟩
      exact framed rfl
    · nofun
  declare name v :=
    touches_rescope (fun _ _ declared => .declare declared) fun _ => Scope.declare_ne_noFrame
  print v := fun m => ⟨.refl _, nofun⟩

end Run

namespace Stmt

/-- A statement contains an assignment to a name. -/
def Assigns (s : Stmt) (x : String) : Prop := ∃ value, s.Contains (.assign x value)

theorem touches_exec {assigned : String → Prop} {s : Stmt}
    (all : ∀ x, s.Assigns x → assigned x) (rounds : Nat) :
    Run.Touches assigned (s.exec rounds : Run σ Unit) := by
  refine exec_parallel_same (Run.touches_parallel assigned) (fun _ => ⟨.refl _, nofun⟩) s
    (fun name value inside v => ?_) rounds
  exact Run.touches_rescope (fun _ _ updated => .update updated (all name ⟨value, inside⟩))
    fun _ => Scope.update_ne_noFrame

/-- What a statement with a frame of its own declares goes with that frame. -/
theorem sameNames_of_inside {rounds : Nat} {s : Stmt} {x : Run σ Unit}
    (inside : s.inside? rounds = some x) (m : Machine σ) :
    m.scope.SameNames (s.exec rounds m).2.scope := by
  have touches : Run.Touches s.Assigns x := by
    refine inside_parallel (y := x) (Run.touches_parallel s.Assigns) (fun _ _ => ?_)
      (fun t part => ?_) inside (by rwa [Nat.zero_add])
    · exact fun _ => ⟨.refl _, nofun⟩
    · exact touches_exec (fun _ ⟨value, within⟩ => ⟨value, .head part within⟩) rounds
  rw [exec_of_inside inside]
  exact (touches.within m).2

/-- A statement that changes the scope by the value of an expression leaves it as it
is, or succeeds and the change has been made. -/
theorem scope_of_rescope {e : Expr} {f : Value → Scope Value → Except ScopeError (Scope Value)}
    {m m' : Machine σ} {result : Except Halt Unit}
    (ran : (Run.eval e >>= fun v => Run.rescope (f v)) m = (result, m')) :
    result ≠ .ok () ∧ m'.scope = m.scope ∨ result = .ok () ∧ ∃ v, f v m.scope = .ok m'.scope := by
  rcases evaluated : Run.eval e m with ⟨h | v, m₁⟩
  · rw [Attempt.bind_error evaluated] at ran
    cases ran
    exact .inl ⟨nofun, Run.scope_of_eval evaluated⟩
  · rw [Attempt.bind_ok evaluated] at ran
    have before : m₁.scope = m.scope := Run.scope_of_eval evaluated
    cases changed : f v m₁.scope with
    | error fault =>
        rw [Run.rescope_of_error changed] at ran
        cases ran
        exact .inl ⟨nofun, before⟩
    | ok scope =>
        rw [Run.rescope_of_ok changed] at ran
        cases ran
        exact .inr ⟨rfl, v, before ▸ changed⟩

/-- A declaration makes one binding, in the innermost frame, if it succeeds. -/
theorem binding?_exec_declare {name : String} {value : Expr} {rounds : Nat} {m m' : Machine σ}
    {result : Except Halt Unit} (ran : (declare name value).exec rounds m = (result, m')) :
    (result = .ok () → m.scope.binding? 0 name = none) ∧
      ∀ level x, (m'.scope.binding? level x).isSome ↔
        (m.scope.binding? level x).isSome ∨ level = 0 ∧ result = .ok () ∧ x = name := by
  rcases scope_of_rescope ran with ⟨failed, same⟩ | ⟨rfl, v, declared⟩
  · refine ⟨fun succeeded => absurd succeeded failed, fun level x => ?_⟩
    simp [same, failed]
  · obtain ⟨free, bindings⟩ := Scope.binding?_declare declared
    refine ⟨fun _ => free, fun level x => ?_⟩
    rw [bindings]
    by_cases here : level = 0 ∧ x = name
    · simp [here]
    · simp [here]

/-- A statement other than a declaration leaves every frame with the names it had. -/
theorem sameNames_exec {s : Stmt} (noDeclaration : ∀ name value, s ≠ .declare name value)
    {rounds : Nat} {m m' : Machine σ} {result : Except Halt Unit}
    (ran : s.exec rounds m = (result, m')) : m.scope.SameNames m'.scope := by
  have framed {x : Run σ Unit} (inside : s.inside? rounds = some x) :
      m.scope.SameNames m'.scope := by
    have names := sameNames_of_inside inside m
    rwa [ran] at names
  cases s with
  | declare name value => exact absurd rfl (noDeclaration name value)
  | assign name value =>
      rcases scope_of_rescope ran with ⟨-, same⟩ | ⟨-, v, updated⟩
      · exact same ▸ .refl m.scope
      · exact .update updated
  | print value =>
      rcases evaluated : Run.eval value m with ⟨h | v, m₁⟩
      · rw [exec, Attempt.bind_error evaluated] at ran
        cases ran
        exact Run.scope_of_eval evaluated ▸ .refl m.scope
      · rw [exec, Attempt.bind_ok evaluated] at ran
        cases ran
        exact Run.scope_of_eval evaluated ▸ .refl m.scope
  | block | branch | loop => exact framed rfl
  | switch focus cases fallback => obtain ⟨entries⟩ := cases; exact framed rfl

/-- What a run may touch. The depth is as before, and no frame is missed. A frame binds
the names that it bound, and the innermost one also binds a name that the statement
itself has declared. An entry changes only if the statement assigns to its name and no
frame further in binds that name. What is printed stands behind earlier output and does
not depend on it. -/
theorem exec_footprint {s : Stmt} {rounds : Nat} {m m' : Machine σ} {result : Except Halt Unit}
    (ran : s.exec rounds m = (result, m')) :
    m'.scope.depth = m.scope.depth ∧
    result ≠ .error (.failed (.scope .noFrame)) ∧
    (∀ level x, (m'.scope.binding? level x).isSome ↔ (m.scope.binding? level x).isSome ∨
      level = 0 ∧ result = .ok () ∧ ∃ value, s = .declare x value) ∧
    (∀ x value, s = .declare x value → result = .ok () → m.scope.binding? 0 x = none) ∧
    (∀ level x old new, m.scope.binding? level x = some old →
      m'.scope.binding? level x = some new → new ≠ old →
      s.Assigns x ∧ ∀ inner < level, m.scope.binding? inner x = none) ∧
    ∃ printed, m'.output = m.output ++ printed ∧
      s.exec rounds m.unprinted = (result, { m' with output := printed }) := by
  obtain ⟨touched, framed⟩ := touches_exec (fun _ assigns => assigns) rounds m (s := s)
  rw [ran] at touched framed
  refine ⟨touched.depth, framed, fun level x => ?_, ?_, touched.changed, ?_⟩
  · by_cases declares : ∃ name value, s = .declare name value
    · obtain ⟨name, value, rfl⟩ := declares
      rw [(binding?_exec_declare ran).2]
      simp [@eq_comm _ x]
    · have none : ∀ name value, s ≠ .declare name value :=
        fun name value same => declares ⟨name, value, same⟩
      simp [sameNames_exec none ran level x, none]
  · rintro x value rfl
    exact (binding?_exec_declare ran).1
  · have apart := (s.appends_exec rounds).apply m
    rw [ran] at apart
    obtain ⟨same, after⟩ := Prod.mk.inj apart
    refine ⟨(s.exec rounds m.unprinted).2.output, ?_, ?_⟩
    · rw [after, Machine.behind]
    · rw [same, after, Machine.behind]

/-- Clears a variable, declares another one, prints the first and fails. -/
def clearing : Stmt :=
  .block [.assign "x" (.bool false), .declare "z" (.bool true), .print (.var "x"),
    .print (.var "missing")]

/-- The failing block clears the inner `x`, but not the one it hides, keeps its `z` to
itself and prints behind what was there. -/
theorem clearing_footprint :
    let m : Machine Queue :=
      ⟨⟨[[("x", .bool true)]], [("x", .bool true), ("y", .bool true)]⟩, [], #[.bool true]⟩
    let m' : Machine Queue :=
      ⟨⟨[[("x", .bool false)]], [("x", .bool true), ("y", .bool true)]⟩, [],
        #[.bool true, .bool false]⟩
    clearing.exec 0 m = (.error (.failed (.scope (.undefined "missing"))), m') ∧
      m'.scope.depth = m.scope.depth ∧ clearing.Assigns "x" ∧
      (∀ level x, (m'.scope.binding? level x).isSome ↔ (m.scope.binding? level x).isSome) ∧
      ∃ printed, m'.output = m.output ++ printed := by
  intro m m'
  have ran : clearing.exec 0 m = (.error (.failed (.scope (.undefined "missing"))), m') := rfl
  obtain ⟨depth, -, names, -, changed, printed, output, -⟩ := exec_footprint ran
  have assigns := (changed 0 "x" (.bool true) (.bool false) rfl rfl (by decide)).1
  refine ⟨ran, depth, assigns, fun level x => ?_, printed, output⟩
  rw [names]
  simp

end Stmt
end Scriptlet
