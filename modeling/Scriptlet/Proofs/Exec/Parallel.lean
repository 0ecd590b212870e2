import Scriptlet.Proofs.Exec.Rounds

/-!
# Two runs side by side

Runs are built from single steps by sequences, frames and rounds. A relation
between runs on two machines that holds of the single steps and passes through
sequences and frames therefore holds between the two runs of every statement.
`Stmt.exec_parallel` is that induction, done once. Its first use is that a run which
has come to its end does not change if its loops are allowed more rounds; the second is
that a run only adds to what was printed before it, and does not depend on it.
-/

namespace Scriptlet

variable {σ τ : Type} [InputSource σ] [InputSource τ]

namespace Run

/-- The ways to build runs keep to a relation between runs on two machines. What an
assignment does is left out, since it may depend on the name. -/
structure Parallel (related : {α : Type} → Run σ α → Run τ α → Prop) : Prop where
  pure {α : Type} (a : α) : related (pure a) (pure a)
  bind {α β : Type} {x : Run σ α} {y : Run τ α} {f : α → Run σ β} {g : α → Run τ β} :
    related x y → (∀ a, related (f a) (g a)) → related (x >>= f) (y >>= g)
  within {x : Run σ Unit} {y : Run τ Unit} : related x y → related (within x) (within y)
  eval (e : Expr) : related (eval e) (eval e)
  declare (name : String) (v : Value) :
    related (rescope (·.declare name v)) (rescope (·.declare name v))
  print (v : Value) : related (print v) (print v)

variable {related : {α : Type} → Run σ α → Run τ α → Prop} {extra : Nat}

/-- Loops are related round by round. Where the first one has used up its rounds, the
second one may have some left. -/
theorem Parallel.repeatWhile (rules : Parallel related)
    (stop : ∀ condition body,
      related (Attempt.fail .unfinished) (Run.repeatWhile condition body extra))
    {condition : Run σ Value} {condition' : Run τ Value} {body : Run σ Unit} {body' : Run τ Unit}
    (atCondition : related condition condition') (atBody : related body body') (rounds : Nat) :
    related (Run.repeatWhile condition body rounds)
      (Run.repeatWhile condition' body' (extra + rounds)) := by
  induction rounds with
  | zero => exact stop condition' body'
  | succ rounds ih =>
      refine rules.bind atCondition fun v => ?_
      cases v.truthy with
      | false => exact rules.pure ()
      | true => exact rules.bind atBody fun _ => ih

end Run

namespace Stmt

open Run (Parallel)

/-- What a statement with a frame of its own runs in that frame. -/
def inside? (rounds : Nat) : Stmt → Option (Run σ Unit)
  | .block body => some (execAll rounds body)
  | .branch condition onTrue onFalse => some do
    let v ← Run.eval condition
    if v.truthy then onTrue.exec rounds else execOption rounds onFalse
  | .loop condition body => some (Run.repeatWhile (Run.eval condition) (body.exec rounds) rounds)
  | .switch focus ⟨cases⟩ fallback => some do
    let v ← Run.eval focus
    execCase rounds v (execOption rounds fallback) cases
  | _ => none

theorem exec_of_inside {rounds : Nat} {s : Stmt} {x : Run σ Unit}
    (inside : s.inside? rounds = some x) : s.exec rounds = Run.within x := by
  cases s with
  | declare | assign | print => cases inside
  | block | branch | loop => cases inside; rfl
  | switch focus cases fallback => obtain ⟨entries⟩ := cases; cases inside; rfl

variable {related : {α : Type} → Run σ α → Run τ α → Prop} {rounds extra : Nat}

/-- What two runs of a statement do in its frame is related if the runs of its parts are. -/
theorem inside_parallel (rules : Parallel related)
    (stop : ∀ condition body,
      related (Attempt.fail .unfinished) (Run.repeatWhile condition body extra))
    {s : Stmt} (parts : ∀ t, s.Part t → related (t.exec rounds) (t.exec (extra + rounds)))
    {x : Run σ Unit} {y : Run τ Unit} (left : s.inside? rounds = some x)
    (right : s.inside? (extra + rounds) = some y) : related x y := by
  have atOption : ∀ missing : Option Stmt, (∀ t, missing = some t → s.Part t) →
      related (execOption rounds missing) (execOption (extra + rounds) missing) := by
    intro missing part
    cases missing with
    | none => exact rules.pure ()
    | some t => exact parts t (part t rfl)
  cases s with
  | declare | assign | print => cases left
  | block body =>
      cases left
      cases right
      have all : ∀ body' ⊆ body,
          related (execAll rounds body') (execAll (extra + rounds) body') := by
        intro body' within
        induction body' with
        | nil => exact rules.pure ()
        | cons t rest ih =>
            obtain ⟨first, others⟩ := List.cons_subset.mp within
            exact rules.bind (parts t (.block first)) fun _ => ih others
      exact all body (List.Subset.refl body)
  | branch condition onTrue onFalse =>
      cases left
      cases right
      refine rules.bind (rules.eval condition) fun v => ?_
      cases v.truthy with
      | true => exact parts onTrue .onTrue
      | false => exact atOption onFalse fun t present => present ▸ .onFalse
  | loop condition body =>
      cases left
      cases right
      exact rules.repeatWhile stop (rules.eval condition) (parts body .body) rounds
  | switch focus cases fallback =>
      obtain ⟨entries⟩ := cases
      cases left
      cases right
      refine rules.bind (rules.eval focus) fun v => ?_
      rw [execCase_eq, execCase_eq]
      cases found : (Cases.mk entries).get? v with
      | some t =>
          obtain ⟨label, member⟩ := Cases.exists_mem_of_get? found
          exact parts t (.case member)
      | none => exact atOption fallback fun t present => present ▸ .fallback

/-- Two runs of a statement are related if the single steps are. -/
theorem exec_parallel (rules : Parallel related)
    (stop : ∀ condition body,
      related (Attempt.fail .unfinished) (Run.repeatWhile condition body extra))
    (s : Stmt) (update : ∀ name value, s.Contains (.assign name value) → ∀ v,
      related (Run.rescope (·.update name v)) (Run.rescope (·.update name v))) :
    related (s.exec rounds) (s.exec (extra + rounds)) := by
  induction s using inductionOnParts with
  | step s ih =>
      have parts : ∀ t, s.Part t → related (t.exec rounds) (t.exec (extra + rounds)) :=
        fun t part => ih t part fun name value inside => update name value (.head part inside)
      have framed {x : Run σ Unit} {y : Run τ Unit} (left : s.inside? rounds = some x)
          (right : s.inside? (extra + rounds) = some y) :
          related (s.exec rounds) (s.exec (extra + rounds)) := by
        rw [exec_of_inside left, exec_of_inside right]
        exact rules.within (inside_parallel rules stop parts left right)
      cases s with
      | declare name value => exact rules.bind (rules.eval value) fun v => rules.declare name v
      | assign name value => exact rules.bind (rules.eval value) fun v => update name value .refl v
      | print value => exact rules.bind (rules.eval value) fun v => rules.print v
      | block | branch | loop => exact framed rfl rfl
      | switch focus cases fallback => obtain ⟨entries⟩ := cases; exact framed rfl rfl

/-- With the same rounds on both sides, loops use them up together. -/
theorem exec_parallel_same (rules : Parallel related)
    (stop : related (Attempt.fail .unfinished : Run σ Unit) (Attempt.fail .unfinished))
    (s : Stmt) (update : ∀ name value, s.Contains (.assign name value) → ∀ v,
      related (Run.rescope (·.update name v)) (Run.rescope (·.update name v))) (rounds : Nat) :
    related (s.exec rounds) (s.exec rounds) := by
  have both : related (s.exec rounds) (s.exec (0 + rounds)) :=
    exec_parallel rules (fun _ _ => by rwa [Run.repeatWhile]) s update
  rwa [Nat.zero_add] at both

end Stmt

namespace Run

/-- The second run does what the first one did, unless that one was unfinished. -/
def Prolonged {α : Type} (x y : Run σ α) : Prop :=
  KeepsDepth x ∧ ∀ m, (x m).1 ≠ .error .unfinished → y m = x m

omit [InputSource σ] in
theorem Prolonged.refl {α : Type} {x : Run σ α} (keeps : KeepsDepth x) : Prolonged x x :=
  ⟨keeps, fun _ _ => rfl⟩

theorem prolonged_parallel : Parallel (σ := σ) (τ := σ) fun x y => Prolonged x y where
  pure a := .refl (keepsDepth_of_scope fun _ => rfl)
  bind {α β x y f g} first next := by
    refine ⟨first.1.bind fun a => (next a).1, fun m finished => ?_⟩
    rcases ran : x m with ⟨h | a, m'⟩
    · rw [Attempt.bind_error ran] at finished ⊢
      have same : y m = x m := first.2 m (by simpa [ran] using finished)
      exact Attempt.bind_error (same.trans ran) g
    · rw [Attempt.bind_ok ran] at finished ⊢
      have same : y m = x m := first.2 m (by simp [ran])
      rw [Attempt.bind_ok (same.trans ran)]
      exact (next a).2 m' finished
  within {x y} inner := by
    refine ⟨inner.1.within, fun m finished => ?_⟩
    obtain ⟨outer, popped, -⟩ := Scope.exists_pop (Nat.succ_pos _) (inner.1 m.inner)
    have ran : x m.inner = ((x m.inner).1, (x m.inner).2) := rfl
    rw [within_of_pop ran popped] at finished ⊢
    exact within_of_pop (inner.2 m.inner finished) popped
  eval e := .refl (keepsDepth_eval e)
  declare name v := .refl (keepsDepth_rescope fun _ _ declared => Scope.depth_declare declared)
  print v := .refl (keepsDepth_of_scope fun _ => rfl)

end Run

/-- A run that has come to its end is the same with more rounds. -/
theorem Stmt.exec_of_finished {s : Stmt} {rounds : Nat} {m m' : Machine σ}
    {result : Except Halt Unit} (ran : s.exec rounds m = (result, m'))
    (finished : result ≠ .error .unfinished) (extra : Nat) :
    s.exec (extra + rounds) m = (result, m') := by
  have prolonged : Run.Prolonged (s.exec rounds : Run σ Unit) (s.exec (extra + rounds)) := by
    refine exec_parallel Run.prolonged_parallel (fun condition body => ?_) s fun name _ _ v => ?_
    · exact ⟨Run.keepsDepth_of_scope fun _ => rfl, fun _ finished => absurd rfl finished⟩
    · exact .refl (Run.keepsDepth_rescope fun _ _ updated => Scope.depth_update updated)
  rw [prolonged.2 m (by rwa [ran]), ran]

namespace Machine

/-- The machine with other output before its own. -/
def behind (earlier : Array Value) (m : Machine σ) : Machine σ :=
  { m with output := earlier ++ m.output }

/-- The machine before it has printed anything. -/
def unprinted (m : Machine σ) : Machine σ := { m with output := #[] }

omit [InputSource σ] in
theorem behind_unprinted (m : Machine σ) : m.unprinted.behind m.output = m := by
  simp [Machine.behind, Machine.unprinted]

end Machine

namespace Run

/-- The run does not see what was printed before, and prints behind it. -/
abbrev Appends {α : Type} (x : Run σ α) : Prop :=
  ∀ earlier, x.Commutes (Machine.behind earlier) fun _ => True

omit [InputSource σ] in
theorem appends_rescope (f : Scope Value → Except ScopeError (Scope Value)) :
    Appends (Run.rescope f : Run σ Unit) := by
  intro earlier m _
  simp only [Run.rescope, Machine.behind]
  cases f m.scope with
  | error e => exact ⟨rfl, trivial⟩
  | ok scope => exact ⟨rfl, trivial⟩

theorem appends_parallel : Parallel (σ := σ) (τ := σ) fun x _ => Appends x where
  pure a := fun _ => Attempt.commutes_pure a
  bind first next := fun earlier => (first earlier).bind fun a => next a earlier
  within {x _} inner := by
    intro earlier m _
    have same : x (m.inner.behind earlier) = _ := (inner earlier m.inner trivial).1
    refine ⟨?_, trivial⟩
    simp only [Run.within, Machine.behind, Machine.inner] at same ⊢
    simp only [same]
    cases (x { m with scope := m.scope.push }).2.scope.pop <;> rfl
  eval e := by
    intro earlier m _
    simp only [Run.eval, Machine.behind]
    rcases e.eval m.scope m.input with ⟨_ | _, input⟩
    · exact ⟨rfl, trivial⟩
    · exact ⟨rfl, trivial⟩
  declare name v := appends_rescope _
  print v := by
    intro earlier m _
    exact ⟨by simp [Run.print, Machine.behind], trivial⟩

omit [InputSource σ] in
/-- A run that starts with output prints as if it had none, and behind it. -/
theorem Appends.apply {α : Type} {x : Run σ α} (appends : Appends x) (m : Machine σ) :
    x m = ((x m.unprinted).1, (x m.unprinted).2.behind m.output) := by
  have same := (appends m.output m.unprinted trivial).1
  rwa [Machine.behind_unprinted] at same

end Run

theorem Stmt.appends_exec (s : Stmt) (rounds : Nat) :
    Run.Appends (s.exec rounds : Run σ Unit) :=
  exec_parallel_same Run.appends_parallel (fun _ => Attempt.commutes_fail _) s
    (fun _ _ _ _ => Run.appends_rescope _) rounds

end Scriptlet
