import Scriptlet.Exec
import Scriptlet.Proofs.Contract
import Scriptlet.Proofs.Scope.Frames
import Scriptlet.Proofs.Stmt.Parts

/-!
# Frames and rounds of a run

Rules for the two things from which runs are built beside sequences: a frame that
is taken away again, and a loop. `Run.Rounds` counts the complete rounds of a
loop, each of which found its condition to hold, so what a loop does can be said
round by round without regard to how many rounds it is allowed.
-/

namespace Scriptlet

/-- What is found by its label is one of the cases. -/
theorem Cases.exists_mem_of_get? {α : Type} {cases : Cases α} {v : Value} {body : α}
    (found : cases.get? v = some body) : ∃ label, (label, body) ∈ cases.entries := by
  obtain ⟨⟨label, _⟩, matched, rfl⟩ := Option.map_eq_some_iff.mp found
  exact ⟨label, List.mem_of_find?_eq_some matched⟩

variable {σ : Type}

/-- The machine with a new frame on top. -/
def Machine.inner (m : Machine σ) : Machine σ := { m with scope := m.scope.push }

namespace Run

variable {α β : Type} {body : Run σ Unit} {condition : Run σ Value} {m m₁ m₂ : Machine σ}
variable {h : Halt}

theorem within_of_pop {result : Except Halt Unit} {outer : Scope Value}
    (ran : body m.inner = (result, m₁)) (popped : m₁.scope.pop = .ok outer) :
    Run.within body m = (result, { m₁ with scope := outer }) := by
  change body { m with scope := m.scope.push } = (result, m₁) at ran
  simp only [Run.within, ran, popped]

/-- A step that leaves as many frames as there were. -/
def KeepsDepth (x : Run σ α) : Prop := ∀ m, (x m).2.scope.depth = m.scope.depth

theorem keepsDepth_of_scope {x : Run σ α} (same : ∀ m, (x m).2.scope = m.scope) :
    KeepsDepth x := fun m => congrArg Scope.depth (same m)

theorem KeepsDepth.bind {x : Run σ α} {f : α → Run σ β} (first : KeepsDepth x)
    (next : ∀ a, KeepsDepth (f a)) : KeepsDepth (x >>= f) :=
  Attempt.bind_relates (fun m m' : Machine σ => m'.scope.depth = m.scope.depth)
    (fun before after => after.trans before) first next

theorem KeepsDepth.within (keeps : KeepsDepth body) : KeepsDepth (Run.within body) := by
  intro m
  obtain ⟨outer, popped, same⟩ := Scope.exists_pop (Nat.succ_pos _) (keeps m.inner)
  have ran : body m.inner = ((body m.inner).1, (body m.inner).2) := rfl
  rw [within_of_pop ran popped]
  exact same

/-- A failure inside a frame is the failure of the whole. -/
theorem within_error (failed : body m.inner = (.error h, m₁))
    (deeper : m₁.scope.depth = m.scope.depth + 1) :
    ∃ m', Run.within body m = (.error h, m') := by
  obtain ⟨outer, popped, _⟩ := Scope.exists_pop (Nat.succ_pos _) deeper
  exact ⟨_, within_of_pop failed popped⟩

/-- `k` complete rounds of a loop. -/
inductive Rounds (condition : Run σ Value) (body : Run σ Unit) :
    Nat → Machine σ → Machine σ → Prop
  | zero (m : Machine σ) : Rounds condition body 0 m m
  | succ {k : Nat} {m m₁ m₂ m₃ : Machine σ} {v : Value} :
      Rounds condition body k m m₁ → condition m₁ = (.ok v, m₂) → v.truthy = true →
      body m₂ = (.ok (), m₃) → Rounds condition body (k + 1) m m₃

/-- The next round fails, in its condition or in its body. -/
def RoundFails (condition : Run σ Value) (body : Run σ Unit) (m : Machine σ) (h : Halt)
    (m' : Machine σ) : Prop :=
  condition m = (.error h, m') ∨
    ∃ v m₁, condition m = (.ok v, m₁) ∧ v.truthy = true ∧ body m₁ = (.error h, m')

/-- Complete rounds use up as many of the rounds allowed. -/
theorem Rounds.repeatWhile {k : Nat} (rounds : Rounds condition body k m m₁) (left : Nat) :
    repeatWhile condition body (k + left) m = repeatWhile condition body left m₁ := by
  induction rounds generalizing left with
  | zero m => rw [Nat.zero_add]
  | @succ k m m₁ m₂ m₃ v earlier held truthy ran ih =>
      have oneMore : k + 1 + left = k + (left + 1) := by omega
      rw [oneMore, ih, Run.repeatWhile, Attempt.bind_ok held, if_pos truthy,
        Attempt.bind_ok ran]

/-- A loop fails with the round that fails, if it is allowed to get there. -/
theorem Rounds.fails {k allowed : Nat} (rounds : Rounds condition body k m m₁)
    (failing : RoundFails condition body m₁ h m₂) (within : k < allowed) :
    Run.repeatWhile condition body allowed m = (.error h, m₂) := by
  obtain ⟨left, rfl⟩ := Nat.exists_eq_add_of_lt within
  rw [Nat.add_assoc, rounds.repeatWhile, Run.repeatWhile]
  rcases failing with failed | ⟨v, m', held, truthy, failed⟩
  · exact Attempt.bind_error failed _
  · rw [Attempt.bind_ok held, if_pos truthy]
    exact Attempt.bind_error failed _

/-- The rule for loops. The invariant may depend on the number of rounds so far. -/
theorem repeatWhile_ensures {allowed : Nat} {done : Unit → Machine σ → Prop}
    {failed : Halt → Machine σ → Prop} (inv : Nat → Machine σ → Prop) (start : inv 0 m)
    (stop : ∀ k m₁, inv k m₁ → failed .unfinished m₁)
    (round : ∀ k m₁, k < allowed → Rounds condition body k m m₁ → inv k m₁ →
      condition.Ensures m₁
        (fun v m₂ => (v.truthy = true → body.Ensures m₂ (fun _ m₃ => inv (k + 1) m₃) failed) ∧
          (v.truthy = false → done () m₂)) failed) :
    (Run.repeatWhile condition body allowed).Ensures m done failed := by
  have loop : ∀ left k m₁, k + left = allowed → Rounds condition body k m m₁ → inv k m₁ →
      (Run.repeatWhile condition body left).Ensures m₁ done failed := by
    intro left
    induction left with
    | zero =>
        intro k m₁ _ _ holds
        exact stop k m₁ holds
    | succ left ih =>
        intro k m₁ total sofar holds
        have step := round k m₁ (by omega) sofar holds
        rw [Run.repeatWhile, Attempt.ensures_bind, Attempt.ensures_iff]
        rw [Attempt.ensures_iff] at step
        refine ⟨fun v m₂ held => ?_, step.2⟩
        obtain ⟨onTrue, onFalse⟩ := step.1 v m₂ held
        cases truthy : v.truthy with
        | false =>
            simp only [Bool.false_eq_true, if_false, Attempt.ensures_pure]
            exact onFalse truthy
        | true =>
            simp only [if_true, Attempt.ensures_bind]
            have body := onTrue truthy
            rw [Attempt.ensures_iff] at body ⊢
            refine ⟨fun _ m₃ ran => ?_, body.2⟩
            exact ih (k + 1) m₃ (by omega) (.succ sofar held truthy ran) (body.1 () m₃ ran)
  exact loop allowed 0 m (Nat.zero_add allowed) (.zero m) start

theorem Rounds.depth {k : Nat} (rounds : Rounds condition body k m m₁)
    (atCondition : KeepsDepth condition) (atBody : KeepsDepth body) :
    m₁.scope.depth = m.scope.depth := by
  induction rounds with
  | zero m => rfl
  | @succ k m m₁ m₂ m₃ v _ held _ ran ih =>
      have afterCondition := atCondition m₁
      have afterBody := atBody m₂
      rw [held] at afterCondition
      rw [ran] at afterBody
      exact (afterBody.trans afterCondition).trans ih

theorem KeepsDepth.repeatWhile (atCondition : KeepsDepth condition) (atBody : KeepsDepth body)
    (allowed : Nat) : KeepsDepth (Run.repeatWhile condition body allowed) := by
  induction allowed with
  | zero => exact keepsDepth_of_scope fun _ => rfl
  | succ allowed ih =>
      refine atCondition.bind fun v => ?_
      cases v.truthy with
      | false => exact keepsDepth_of_scope fun _ => rfl
      | true => exact atBody.bind fun _ => ih

theorem scope_eval [InputSource σ] (e : Expr) (m : Machine σ) :
    (Run.eval e m).2.scope = m.scope := by
  unfold Run.eval
  split <;> rfl

theorem scope_of_eval [InputSource σ] {e : Expr} {result : Except Halt Value}
    (ran : Run.eval e m = (result, m₁)) : m₁.scope = m.scope := by
  have kept := scope_eval e m
  rwa [ran] at kept

theorem keepsDepth_eval [InputSource σ] (e : Expr) : KeepsDepth (Run.eval e : Run σ Value) :=
  keepsDepth_of_scope (scope_eval e)

theorem rescope_of_ok {f : Scope Value → Except ScopeError (Scope Value)} {scope : Scope Value}
    (changed : f m.scope = .ok scope) : Run.rescope f m = (.ok (), { m with scope }) := by
  simp only [Run.rescope, changed]

theorem rescope_of_error {f : Scope Value → Except ScopeError (Scope Value)} {e : ScopeError}
    (failed : f m.scope = .error e) : Run.rescope f m = (.error (.failed (.scope e)), m) := by
  simp only [Run.rescope, failed]

theorem keepsDepth_rescope {f : Scope Value → Except ScopeError (Scope Value)}
    (same : ∀ scope scope', f scope = .ok scope' → scope'.depth = scope.depth) :
    KeepsDepth (Run.rescope f : Run σ Unit) := by
  intro m
  simp only [Run.rescope]
  cases changed : f m.scope with
  | error e => rfl
  | ok scope' => exact same m.scope scope' changed

end Run

namespace Stmt

open Run

variable [InputSource σ]

/-- The case that a `switch` runs is the one found by its label. -/
theorem execCase_eq (rounds : Nat) (v : Value) (otherwise : Run σ Unit)
    (entries : List (Value × Stmt)) :
    execCase rounds v otherwise entries =
      match (Cases.mk entries).get? v with
      | some s => s.exec rounds
      | none => otherwise := by
  induction entries with
  | nil => rfl
  | cons entry rest ih =>
      obtain ⟨label, body⟩ := entry
      cases same : label.sameKey v with
      | true => simp [execCase, Cases.get?, same]
      | false =>
          simp only [execCase, same, Bool.false_eq_true, if_false, ih]
          simp [Cases.get?, same]

theorem keepsDepth_execAll {rounds : Nat} {body : List Stmt}
    (parts : ∀ s ∈ body, KeepsDepth (s.exec rounds : Run σ Unit)) :
    KeepsDepth (execAll rounds body : Run σ Unit) := by
  induction body with
  | nil => exact keepsDepth_of_scope fun _ => rfl
  | cons s rest ih =>
      obtain ⟨atHead, inRest⟩ := List.forall_mem_cons.mp parts
      exact atHead.bind fun _ => ih inRest

/-- Every run gives back the frames it opened. -/
theorem keepsDepth_exec (rounds : Nat) (s : Stmt) :
    KeepsDepth (s.exec rounds : Run σ Unit) := by
  have atOption : ∀ missing : Option Stmt, (∀ s, missing = some s →
      KeepsDepth (s.exec rounds : Run σ Unit)) →
      KeepsDepth (execOption rounds missing : Run σ Unit) := by
    intro missing parts
    cases missing with
    | none => exact keepsDepth_of_scope fun _ => rfl
    | some s => exact parts s rfl
  induction s with
  | declare name value =>
      refine (keepsDepth_eval value).bind fun v => keepsDepth_rescope fun scope scope' declared => ?_
      exact Scope.depth_declare declared
  | assign name value =>
      refine (keepsDepth_eval value).bind fun v => keepsDepth_rescope fun scope scope' updated => ?_
      exact Scope.depth_update updated
  | print value => exact (keepsDepth_eval value).bind fun v => keepsDepth_of_scope fun _ => rfl
  | block body parts => exact (keepsDepth_execAll parts).within
  | branch condition onTrue onFalse atTrue atFalse =>
      refine ((keepsDepth_eval condition).bind fun v => ?_).within
      cases v.truthy with
      | true => exact atTrue
      | false => exact atOption onFalse atFalse
  | loop condition body atBody => exact ((keepsDepth_eval condition).repeatWhile atBody rounds).within
  | switch focus cases fallback atCases atFallback =>
      obtain ⟨entries⟩ := cases
      refine ((keepsDepth_eval focus).bind fun v => ?_).within
      rw [execCase_eq]
      cases found : (Cases.mk entries).get? v with
      | some s =>
          obtain ⟨label, member⟩ := Cases.exists_mem_of_get? found
          exact atCases (label, s) member
      | none => exact atOption fallback atFallback

end Stmt
end Scriptlet
