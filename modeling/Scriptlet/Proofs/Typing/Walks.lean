import Scriptlet.Proofs.Stmt.Parts
import Scriptlet.Typing

/-!
# Induction over checks

A check is a walk that is built from a few steps by sequences and frames. A property
that the steps have and that sequences and frames pass on is therefore a property of the
check of every statement. It may depend on the number of frames that have been pushed
since it was looked at first.
-/

namespace Scriptlet

namespace Check

/-- The steps of a check have a property at every depth, and sequences and frames pass
it on. -/
structure Hereditary (holds : Nat → {α : Type} → Attempt StaticError (Scope Ty) α → Prop) :
    Prop where
  pure {depth : Nat} {α : Type} (a : α) : holds depth (pure a)
  bind {depth : Nat} {α β : Type} {x : Attempt StaticError (Scope Ty) α}
    {f : α → Attempt StaticError (Scope Ty) β} :
    holds depth x → (∀ a, holds depth (f a)) → holds depth (x >>= f)
  within {depth : Nat} {body : Check} : holds (depth + 1) body → holds depth (within body)
  infer {depth : Nat} (e : Expr) : holds depth (infer e)
  require {depth : Nat} (expected actual : Ty) : holds depth (require expected actual)
  assigned {depth : Nat} (name : String) : holds depth (assigned name)
  declare {depth : Nat} (name : String) (ty : Ty) : holds depth (declare name ty)

end Check

namespace Stmt

open Check (Hereditary)

variable {holds : Nat → {α : Type} → Attempt StaticError (Scope Ty) α → Prop}

theorem checkAll_of_parts (rules : Hereditary holds) {body : List Stmt} {depth : Nat}
    (parts : ∀ s ∈ body, holds depth s.check) : holds depth (checkAll body) := by
  induction body with
  | nil => exact rules.pure ()
  | cons s rest ih =>
      obtain ⟨atHead, inRest⟩ := List.forall_mem_cons.mp parts
      exact rules.bind atHead fun _ => ih inRest

theorem checkOption_of_parts (rules : Hereditary holds) {missing : Option Stmt} {depth : Nat}
    (parts : ∀ s, missing = some s → holds (depth + 1) s.check) :
    holds depth (checkOption missing) := by
  cases missing with
  | none => exact rules.pure ()
  | some s => exact rules.within (parts s rfl)

theorem checkCases_of_parts (rules : Hereditary holds) (ty : Ty) {entries : List (Value × Stmt)}
    {depth : Nat} (parts : ∀ entry ∈ entries, holds (depth + 1) entry.2.check) :
    holds depth (checkCases ty entries) := by
  induction entries with
  | nil => exact rules.pure ()
  | cons entry rest ih =>
      obtain ⟨atHead, inRest⟩ := List.forall_mem_cons.mp parts
      refine rules.bind (rules.require _ _) fun _ => ?_
      exact rules.bind (rules.within atHead) fun _ => ih inRest

/-- What the steps have and what sequences and frames pass on holds of every check. -/
theorem check_of_hereditary (rules : Hereditary holds) (s : Stmt) (depth : Nat) :
    holds depth s.check := by
  induction s generalizing depth with
  | declare name value => exact rules.bind (rules.infer value) fun ty => rules.declare name ty
  | assign name value =>
      refine rules.bind (rules.assigned name) fun expected => ?_
      exact rules.bind (rules.infer value) fun actual => rules.require expected actual
  | print value => exact rules.bind (rules.infer value) fun _ => rules.pure ()
  | block body parts =>
      exact rules.within (checkAll_of_parts rules fun s member => parts s member _)
  | branch condition onTrue onFalse atTrue atFalse =>
      refine rules.bind (rules.infer condition) fun ty => ?_
      refine rules.bind (rules.require _ _) fun _ => ?_
      refine rules.bind (rules.within (atTrue _)) fun _ => ?_
      exact checkOption_of_parts rules fun s present => atFalse s present _
  | loop condition body atBody =>
      refine rules.within (rules.bind (rules.infer condition) fun ty => ?_)
      exact rules.bind (rules.require _ _) fun _ => atBody _
  | switch focus cases fallback atCases atFallback =>
      obtain ⟨entries⟩ := cases
      refine rules.bind (rules.infer focus) fun ty => ?_
      refine rules.bind (checkCases_of_parts rules ty fun entry member => atCases entry member _)
        fun _ => ?_
      exact checkOption_of_parts rules fun s present => atFallback s present _

theorem checkAll_of_hereditary (rules : Hereditary holds) (body : List Stmt) (depth : Nat) :
    holds depth (checkAll body) :=
  checkAll_of_parts rules fun s _ => check_of_hereditary rules s depth

end Stmt
end Scriptlet
