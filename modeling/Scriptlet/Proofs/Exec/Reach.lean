import Scriptlet.Proofs.Exec.Rounds

/-!
# Statements that a run comes to

`Enters` says that executing a statement on a machine starts one of its parts on
another machine, and `Reaches` follows such steps to any depth. A statement that
is reached lies inside the statement that runs, and if it fails there, then the
whole run fails with the same error: nothing catches a failure on its way out.
-/

namespace Scriptlet.Stmt

variable {σ : Type} [InputSource σ] {rounds : Nat} {m m₁ m₂ : Machine σ} {h : Halt}

/-- Executing the first statement on its machine comes to execute the second one,
which is a part of it, on the second machine. -/
inductive Enters (rounds : Nat) : Stmt × Machine σ → Stmt × Machine σ → Prop
  | block {before after : List Stmt} {s : Stmt} {m m₁ : Machine σ} :
      execAll rounds before m.inner = (.ok (), m₁) →
      Enters rounds (.block (before ++ s :: after), m) (s, m₁)
  | onTrue {condition : Expr} {s : Stmt} {onFalse : Option Stmt} {v : Value}
      {m m₁ : Machine σ} :
      Run.eval condition m.inner = (.ok v, m₁) → v.truthy = true →
      Enters rounds (.branch condition s onFalse, m) (s, m₁)
  | onFalse {condition : Expr} {onTrue s : Stmt} {v : Value} {m m₁ : Machine σ} :
      Run.eval condition m.inner = (.ok v, m₁) → v.truthy = false →
      Enters rounds (.branch condition onTrue (some s), m) (s, m₁)
  | round {condition : Expr} {s : Stmt} {k : Nat} {v : Value} {m m₁ m₂ : Machine σ} :
      k < rounds → Run.Rounds (Run.eval condition) (s.exec rounds) k m.inner m₁ →
      Run.eval condition m₁ = (.ok v, m₂) → v.truthy = true →
      Enters rounds (.loop condition s, m) (s, m₂)
  | case {focus : Expr} {cases : Cases Stmt} {fallback : Option Stmt} {s : Stmt} {v : Value}
      {m m₁ : Machine σ} :
      Run.eval focus m.inner = (.ok v, m₁) → cases.get? v = some s →
      Enters rounds (.switch focus cases fallback, m) (s, m₁)
  | fallback {focus : Expr} {cases : Cases Stmt} {s : Stmt} {v : Value} {m m₁ : Machine σ} :
      Run.eval focus m.inner = (.ok v, m₁) → cases.get? v = none →
      Enters rounds (.switch focus cases (some s), m) (s, m₁)

/-- Executing the first statement on its machine comes to execute the second one
on the second machine, at any depth. -/
def Reaches (rounds : Nat) : Stmt × Machine σ → Stmt × Machine σ → Prop :=
  Relation.ReflTransGen (Enters rounds)

theorem Enters.part {here there : Stmt × Machine σ} (enters : Enters rounds here there) :
    here.1.Part there.1 := by
  cases enters with
  | block _ => exact .block (by simp)
  | onTrue _ _ => exact .onTrue
  | onFalse _ _ => exact .onFalse
  | round _ _ _ _ => exact .body
  | case _ found =>
      obtain ⟨label, member⟩ := Cases.exists_mem_of_get? found
      exact .case member
  | fallback _ _ => exact .fallback

theorem Reaches.contains {here there : Stmt × Machine σ} (reaches : Reaches rounds here there) :
    here.1.Contains there.1 := by
  induction reaches with
  | refl => exact .refl
  | tail _ enters ih => exact ih.tail enters.part

theorem execAll_append (rounds : Nat) (before after : List Stmt) :
    (execAll rounds (before ++ after) : Run σ Unit) =
      execAll rounds before >>= fun _ => execAll rounds after := by
  induction before with
  | nil => rfl
  | cons s rest ih =>
      funext m
      simp only [List.cons_append, execAll, ih, Attempt.bind_apply]
      rcases s.exec rounds m with ⟨_ | _, m₁⟩ <;> rfl

theorem Enters.depth {here there : Stmt × Machine σ} (enters : Enters rounds here there) :
    there.2.scope.depth = here.2.scope.depth + 1 := by
  have afterEval : ∀ {e : Expr} {v : Value} {m m₁ : Machine σ},
      Run.eval e m.inner = (.ok v, m₁) → m₁.scope.depth = m.scope.depth + 1 := by
    intro e v m m₁ ran
    have same := Run.keepsDepth_eval e m.inner
    rwa [ran] at same
  cases enters with
  | @block before after s m m₁ sofar =>
      have keeps : Run.KeepsDepth (execAll rounds before : Run σ Unit) :=
        keepsDepth_execAll fun s _ => keepsDepth_exec rounds s
      have same := keeps m.inner
      rwa [sofar] at same
  | onTrue held _ => exact afterEval held
  | onFalse held _ => exact afterEval held
  | @round condition s k v m m₁ m₂ _ sofar held _ =>
      have same := Run.keepsDepth_eval condition m₁
      rw [held] at same
      exact same.trans (sofar.depth (Run.keepsDepth_eval condition) (keepsDepth_exec rounds s))
  | case held _ => exact afterEval held
  | fallback held _ => exact afterEval held

/-- A part that fails makes the statement fail. -/
theorem Enters.fails {here there : Stmt × Machine σ} (enters : Enters rounds here there)
    (failed : there.1.exec rounds there.2 = (.error h, m₂)) :
    ∃ m', here.1.exec rounds here.2 = (.error h, m') := by
  have deeper : m₂.scope.depth = here.2.scope.depth + 1 := by
    have same := keepsDepth_exec rounds there.1 there.2
    rw [failed] at same
    exact same.trans enters.depth
  cases enters with
  | @block before after s m m₁ sofar =>
      have inside : execAll rounds (before ++ s :: after) m.inner = (.error h, m₂) := by
        rw [execAll_append, Attempt.bind_ok sofar]
        exact Attempt.bind_error failed _
      exact Run.within_error inside deeper
  | onTrue held truthy =>
      refine Run.within_error ?_ deeper
      rw [Attempt.bind_ok held, if_pos truthy]
      exact failed
  | onFalse held falsy =>
      refine Run.within_error ?_ deeper
      rw [Attempt.bind_ok held, if_neg (by simp [falsy])]
      exact failed
  | @round condition s k v m m₁ m₃ within sofar held truthy =>
      have failing : Run.RoundFails (Run.eval condition) (s.exec rounds) m₁ h m₂ :=
        .inr ⟨v, m₃, held, truthy, failed⟩
      exact Run.within_error (sofar.fails failing within) deeper
  | @case focus cases fallback s v m m₁ held found =>
      refine Run.within_error ?_ deeper
      rw [Attempt.bind_ok held, execCase_eq, found]
      exact failed
  | fallback held found =>
      refine Run.within_error ?_ deeper
      rw [Attempt.bind_ok held, execCase_eq, found]
      exact failed

/-- A statement that a run comes to makes the whole run fail if it fails there. -/
theorem Reaches.fails {here there : Stmt × Machine σ} (reaches : Reaches rounds here there)
    (failed : there.1.exec rounds there.2 = (.error h, m₂)) :
    ∃ m', here.1.exec rounds here.2 = (.error h, m') := by
  induction reaches using Relation.ReflTransGen.head_induction_on with
  | refl => exact ⟨m₂, failed⟩
  | head enters _ ih =>
      obtain ⟨m', inner⟩ := ih
      exact enters.fails inner

end Scriptlet.Stmt
