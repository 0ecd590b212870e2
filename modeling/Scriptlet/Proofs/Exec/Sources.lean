import Scriptlet.Proofs.Exec.Parallel
import Scriptlet.Proofs.Input.Reads

/-!
# Runs on two sources of input

Two sources are paired if a read from the second one answers what a read from the
first one answers, and leaves them paired. Then a whole run on the second one is the
run on the first one. A failed read of the first source may be excused from this:
the second source may have an answer there, and its run can go on. What the first
run printed up to that read, the second one has printed too.

A queue with more values behind is paired with the queue alone, where only the end
of the queue is excused. So values that a run does not read have no influence on it.
-/

namespace Scriptlet

namespace Attempt

variable {ε ε' σ τ α β : Type} {paired parted : σ → τ → Prop} {excused : ε → Prop}

/-- How two computations end side by side: with the same answer in paired states, or
the first one with an excused error, in states that are only `parted`. -/
inductive Matched (paired : σ → τ → Prop) (excused : ε → Prop) (parted : σ → τ → Prop) :
    Except ε α × σ → Except ε α × τ → Prop
  | same {result : Except ε α} {s : σ} {t : τ} :
      paired s t → Matched paired excused parted (result, s) (result, t)
  | excused {e : ε} {result : Except ε α} {s : σ} {t : τ} :
      excused e → parted s t → Matched paired excused parted (.error e, s) (result, t)

/-- From paired states, the second computation does what the first one does, unless
that one fails in an excused way. -/
def Tracks (paired : σ → τ → Prop) (excused : ε → Prop) (parted : σ → τ → Prop)
    (x : Attempt ε σ α) (y : Attempt ε τ α) : Prop :=
  ∀ s t, paired s t → Matched paired excused parted (x s) (y t)

theorem tracks_pure (a : α) : Tracks paired excused parted (pure a) (pure a) :=
  fun _ _ together => .same together

theorem tracks_fail (e : ε) : Tracks paired excused parted (fail e : Attempt ε σ α) (fail e) :=
  fun _ _ together => .same together

theorem tracks_query (answer : Except ε α) :
    Tracks paired excused parted (query fun _ => answer) (query fun _ => answer) :=
  fun _ _ together => .same together

/-- The rule for sequences. Where the first computation has stopped, the second one
may go on. -/
theorem Tracks.bind {x : Attempt ε σ α} {y : Attempt ε τ α} {f : α → Attempt ε σ β}
    {g : α → Attempt ε τ β} (first : Tracks paired excused parted x y)
    (next : ∀ a, Tracks paired excused parted (f a) (g a))
    (onward : ∀ a s t, parted s t → parted s (g a t).2) :
    Tracks paired excused parted (x >>= f) (y >>= g) := by
  intro s t together
  have outcome := first s t together
  rw [bind_apply, bind_apply]
  generalize x s = left at outcome ⊢
  generalize y t = right at outcome ⊢
  cases outcome with
  | @same result s' t' still =>
      cases result with
      | error e => exact .same still
      | ok a => exact next a s' t' still
  | @excused e result s' t' excuse apart =>
      cases result with
      | error e' => exact .excused excuse apart
      | ok a => exact .excused excuse (onward a s' t' apart)

theorem Tracks.mapError {x : Attempt ε σ α} {y : Attempt ε τ α}
    (tracks : Tracks paired excused parted x y) (f : ε → ε') :
    Tracks paired (fun e' => ∃ e, e' = f e ∧ excused e) parted (mapError f x) (mapError f y) := by
  intro s t together
  have outcome := tracks s t together
  unfold Attempt.mapError
  generalize x s = left at outcome ⊢
  generalize y t = right at outcome ⊢
  cases outcome with
  | @same result s' t' still => cases result <;> exact .same still
  | @excused e result s' t' excuse apart =>
      cases result <;> exact .excused ⟨e, rfl, excuse⟩ apart

end Attempt

variable {σ τ : Type} [InputSource σ] [InputSource τ]
variable {paired : σ → τ → Prop} {excused : InputError → Prop}

/-- Reads from paired sources answer alike and leave them paired, as long as reads
from the first source do not fail in an excused way. -/
def InputSource.Alike (paired : σ → τ → Prop) (excused : InputError → Prop) : Prop :=
  ∀ ty, Attempt.Tracks paired excused (fun _ _ => True) (read ty : Attempt InputError σ Value)
    (read ty)

/-- An expression has the same value on paired sources. -/
theorem Expr.eval_tracks (alike : InputSource.Alike paired excused) (scope : Scope Value)
    (e : Expr) :
    Attempt.Tracks paired (fun e => ∃ cause, e = .input cause ∧ excused cause) (fun _ _ => True)
      (e.eval scope : Attempt RuntimeError σ Value) (e.eval scope) := by
  induction e with
  | num x => exact Attempt.tracks_pure _
  | bool b => exact Attempt.tracks_pure _
  | var name => exact Attempt.tracks_query _
  | input ty => exact (alike ty).mapError RuntimeError.input
  | unary op operand ih =>
      refine ih.bind (fun v => ?_) fun _ _ _ _ => trivial
      exact Attempt.tracks_query _
  | binary op left right atLeft atRight =>
      refine atLeft.bind (fun l => ?_) fun _ _ _ _ => trivial
      refine atRight.bind (fun r => ?_) fun _ _ _ _ => trivial
      exact Attempt.tracks_query _

/-- Machines that differ in their input only, and there are paired. -/
structure Machine.Paired (paired : σ → τ → Prop) (m : Machine σ) (n : Machine τ) : Prop where
  scope : n.scope = m.scope
  input : paired m.input n.input
  output : n.output = m.output

/-- A run ends with an excused failure of a read. -/
def Halt.Excused (excused : InputError → Prop) (h : Halt) : Prop :=
  ∃ cause, h = .failed (.input cause) ∧ excused cause

namespace Run

/-- The second run does on a paired machine what the first one does, unless that one
fails in an excused way. Even then it has printed what the first one printed. -/
structure Tracks (paired : σ → τ → Prop) (excused : InputError → Prop) {α : Type} (x : Run σ α)
    (y : Run τ α) : Prop where
  depth : KeepsDepth x
  appends : Appends y
  tracks : Attempt.Tracks (Machine.Paired paired) (Halt.Excused excused)
    (fun m n => m.output.toList <+: n.output.toList) x y

omit [InputSource τ] in
theorem Appends.prefix_output {α : Type} {y : Run τ α} (appends : Appends y) (n : Machine τ) :
    n.output.toList <+: (y n).2.output.toList := by
  rw [appends.apply n]
  simp [Machine.behind]

omit [InputSource σ] in
theorem output_within (x : Run σ Unit) (m : Machine σ) :
    (within x m).2.output = (x m.inner).2.output := by
  simp only [Run.within, Machine.inner]
  split <;> rfl

theorem tracks_eval (alike : InputSource.Alike paired excused) (e : Expr) :
    Attempt.Tracks (Machine.Paired paired) (Halt.Excused excused)
      (fun m n => m.output.toList <+: n.output.toList) (Run.eval e : Run σ Value)
      (Run.eval e : Run τ Value) := by
  intro m n together
  have outcome := e.eval_tracks alike m.scope m.input n.input together.input
  have printed : m.output.toList <+: n.output.toList :=
    together.output ▸ List.prefix_rfl
  unfold Run.eval
  rw [together.scope]
  generalize e.eval m.scope m.input = left at outcome ⊢
  generalize e.eval m.scope n.input = right at outcome ⊢
  cases outcome with
  | @same result _ _ still =>
      cases result <;> exact .same ⟨rfl, still, together.output⟩
  | @excused _ result _ _ excuse _ =>
      obtain ⟨cause, rfl, excuse⟩ := excuse
      cases result <;> exact .excused ⟨cause, rfl, excuse⟩ printed

omit [InputSource σ] [InputSource τ] in
theorem tracks_rescope {f : Scope Value → Except ScopeError (Scope Value)}
    (level : ∀ scope scope', f scope = .ok scope' → scope'.depth = scope.depth) :
    Tracks paired excused (rescope f : Run σ Unit) (rescope f) where
  depth := keepsDepth_rescope level
  appends := appends_rescope f
  tracks := by
    intro m n together
    unfold Run.rescope
    rw [together.scope]
    cases f m.scope with
    | error e => exact .same together
    | ok scope => exact .same ⟨rfl, together.input, together.output⟩

omit [InputSource σ] in
/-- A frame is taken away from both machines, also after a failure. -/
theorem Tracks.within {x : Run σ Unit} {y : Run τ Unit} (inner : Tracks paired excused x y) :
    Tracks paired excused (Run.within x) (Run.within y) where
  depth := inner.depth.within
  appends := appends_parallel.within (y := y) inner.appends
  tracks := by
    intro m n together
    have inside : Machine.Paired paired m.inner n.inner :=
      ⟨congrArg Scope.push together.scope, together.input, together.output⟩
    have outcome := inner.tracks m.inner n.inner inside
    obtain ⟨outer, popped, -⟩ := Scope.exists_pop (Nat.succ_pos _) (inner.depth m.inner)
    have printed := output_within y n
    generalize left : x m.inner = leftEnd at outcome popped
    generalize right : y n.inner = rightEnd at outcome printed
    cases outcome with
    | same still =>
        rw [within_of_pop left popped, within_of_pop right (still.scope ▸ popped)]
        exact .same ⟨rfl, still.input, still.output⟩
    | excused excuse apart =>
        rw [within_of_pop left popped]
        exact .excused excuse (printed ▸ apart)

theorem tracks_parallel (alike : InputSource.Alike paired excused) :
    Parallel (σ := σ) (τ := τ) fun x y => Tracks paired excused x y where
  pure a := ⟨keepsDepth_of_scope fun _ => rfl, appends_parallel.pure a, Attempt.tracks_pure a⟩
  bind {_ _ _ y _ g} first next := {
    depth := first.depth.bind fun a => (next a).depth
    appends := appends_parallel.bind (y := y) (g := g) first.appends fun a => (next a).appends
    tracks := by
      refine first.tracks.bind (fun a => (next a).tracks) fun a m n sofar => ?_
      exact sofar.trans ((next a).appends.prefix_output n) }
  within inner := inner.within
  eval e := ⟨keepsDepth_eval e, appends_parallel.eval e, tracks_eval alike e⟩
  declare name v := tracks_rescope fun _ _ declared => Scope.depth_declare declared
  print v := {
    depth := keepsDepth_of_scope fun _ => rfl
    appends := appends_parallel.print v
    tracks := by
      intro m n together
      exact .same ⟨together.scope, together.input, congrArg (·.push v) together.output⟩ }

end Run

/-- A statement runs alike on paired sources. -/
theorem Stmt.exec_tracks (alike : InputSource.Alike paired excused) (s : Stmt) (rounds : Nat) :
    Run.Tracks paired excused (s.exec rounds : Run σ Unit) (s.exec rounds : Run τ Unit) := by
  refine exec_parallel_same (Run.tracks_parallel alike) ?_ s (fun name _ _ v => ?_) rounds
  · exact ⟨Run.keepsDepth_of_scope fun _ => rfl, fun _ => Attempt.commutes_fail _,
      Attempt.tracks_fail _⟩
  · exact Run.tracks_rescope fun _ _ updated => Scope.depth_update updated

/-- The machine with more values behind those in its queue. -/
def Machine.supplied (more : Queue) (m : Machine Queue) : Machine Queue :=
  { m with input := m.input ++ more }

/-- Reads from a longer queue answer alike as long as the shorter one lasts. -/
theorem Queue.alike_append (more : Queue) :
    InputSource.Alike (fun short long : Queue => long = short ++ more)
      (fun e => ∃ ty, e = .closed ty) := by
  rintro ty short long rfl
  cases short with
  | nil => exact .excused ⟨ty, rfl⟩ trivial
  | cons first rest =>
      change Attempt.Matched _ _ _ (Queue.read ty (first :: rest))
        (Queue.read ty (first :: (rest ++ more)))
      by_cases fits : first.ty = ty
      · rw [read_of_ty fits, read_of_ty fits]
        exact .same rfl
      · rw [read_of_ty_ne fits, read_of_ty_ne fits]
        exact .same rfl

/-- Values that a run does not read have no influence on it: with more values behind
the queue it ends with the same result, output and variables, and leaves them behind
what it has not read. A run that fails at the end of the queue may go on with more
values, and what it has printed so far stays printed. -/
theorem Stmt.exec_supplied (s : Stmt) (rounds : Nat) (m m' : Machine Queue) (more : Queue)
    (result : Except Halt Unit) (ran : s.exec rounds m = (result, m')) :
    ((∀ ty, result ≠ .error (.failed (.input (.closed ty)))) →
      s.exec rounds (m.supplied more) = (result, m'.supplied more)) ∧
    ∀ ty, result = .error (.failed (.input (.closed ty))) →
      ∀ rounds' result' m'', s.exec rounds' (m.supplied more) = (result', m'') →
        result' ≠ .error .unfinished → m'.output.toList <+: m''.output.toList := by
  have alike := Queue.alike_append more
  have together : Machine.Paired (fun short long => long = short ++ more) m (m.supplied more) :=
    ⟨rfl, rfl, rfl⟩
  constructor
  · intro goesOn
    have outcome := (s.exec_tracks alike rounds).tracks m _ together
    rw [ran] at outcome
    generalize s.exec rounds (m.supplied more) = longer at outcome ⊢
    cases outcome with
    | @same _ _ n still =>
        obtain ⟨scope, input, output⟩ := n
        obtain ⟨rfl, rfl, rfl⟩ := still
        rfl
    | excused excuse _ =>
        obtain ⟨cause, rfl, ty, rfl⟩ := excuse
        exact absurd rfl (goesOn ty)
  · rintro ty rfl rounds' result' m'' ran' finished
    -- With enough rounds for both runs, the two can be compared.
    have left := exec_of_finished ran (by simp) rounds'
    have right := exec_of_finished ran' finished rounds
    rw [Nat.add_comm] at right
    have outcome := (s.exec_tracks alike (rounds' + rounds)).tracks m _ together
    rw [left, right] at outcome
    cases outcome with
    | same still => exact still.output ▸ List.prefix_rfl
    | excused _ printed => exact printed

/-- Prints a number of the input for each `true` before it. -/
def Stmt.echoing : Stmt := .loop (.input .bool) (.print (.input .num))

/-- The loop leaves alone what comes behind the `false` that ends it, and goes on after
the end of a shorter queue. -/
theorem Stmt.echoing_supplied :
    (∃ m', echoing.exec 2 (.start [.bool true, .num 5, .bool false]) = (.ok (), m') ∧
      echoing.exec 2 (.start [.bool true, .num 5, .bool false, .num 7]) =
        (.ok (), m'.supplied [.num 7])) ∧
    ∃ m' m'' : Machine Queue,
      echoing.exec 2 (.start [.bool true, .num 5]) =
        (.error (.failed (.input (.closed .bool))), m') ∧
      echoing.exec 3 (.start [.bool true, .num 5, .bool true, .num 7, .bool false]) =
        (.ok (), m'') ∧
      m'.output.toList <+: m''.output.toList := by
  refine ⟨⟨_, rfl, ?_⟩, ⟨_, _, rfl, rfl, ?_⟩⟩
  · exact (exec_supplied echoing 2 (.start [.bool true, .num 5, .bool false]) _ [.num 7] _ rfl).1
      nofun
  · exact (exec_supplied echoing 2 (.start [.bool true, .num 5]) _
      [.bool true, .num 7, .bool false] _ rfl).2 .bool rfl 3 _ _ rfl nofun

end Scriptlet
