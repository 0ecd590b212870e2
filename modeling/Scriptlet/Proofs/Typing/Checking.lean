import Scriptlet.Proofs.Contract
import Scriptlet.Proofs.Scope.Frames
import Scriptlet.Proofs.Typing.Walks

/-!
# What a check does to the scope

A check leaves the scope as it was, whether it succeeds or fails, except that a
declaration which succeeds adds its name. Declarations inside a statement land in
frames that the check takes away again, so a successful check of a statement says
the same about each of its parts in the scope where the statement stands.
-/

namespace Scriptlet

namespace Check

variable {α β : Type}

/-- A walk that leaves every scope as it was. -/
def Keeps (x : Attempt StaticError (Scope Ty) α) : Prop := ∀ scope, (x scope).2 = scope

/-- A walk that only declares. -/
def OnlyDeclares (x : Attempt StaticError (Scope Ty) α) : Prop :=
  ∀ scope : Scope Ty, scope.Grows (x scope).2

theorem Keeps.onlyDeclares {x : Attempt StaticError (Scope Ty) α} (keeps : Keeps x) :
    OnlyDeclares x := by
  intro scope
  rw [keeps scope]
  exact .refl scope

theorem keeps_query (f : Scope Ty → Except StaticError α) : Keeps (.query f) := fun _ => rfl

theorem keeps_pure (a : α) : Keeps (pure a) := fun _ => rfl

theorem Keeps.bind {x : Attempt StaticError (Scope Ty) α}
    {f : α → Attempt StaticError (Scope Ty) β} (first : Keeps x) (next : ∀ a, Keeps (f a)) :
    Keeps (x >>= f) :=
  Attempt.bind_relates (fun scope scope' : Scope Ty => scope' = scope)
    (fun before after => after.trans before) first next

theorem OnlyDeclares.bind {x : Attempt StaticError (Scope Ty) α}
    {f : α → Attempt StaticError (Scope Ty) β} (first : OnlyDeclares x)
    (next : ∀ a, OnlyDeclares (f a)) : OnlyDeclares (x >>= f) :=
  Attempt.bind_relates Scope.Grows .trans first next

theorem onlyDeclares_declare (name : String) (ty : Ty) : OnlyDeclares (Check.declare name ty) := by
  intro scope
  simp only [Check.declare, Attempt.advance]
  cases declared : scope.declare name ty with
  | error e => exact .refl scope
  | ok scope' => exact .declare declared

/-- A walk in a frame of its own gives its result and leaves the scope alone. -/
theorem within_apply {body : Check} (declares : OnlyDeclares body) (scope : Scope Ty) :
    Check.within body scope = ((body scope.push).1, scope) := by
  have popped : (body scope.push).2.pop = .ok scope := (declares scope.push).pop
  simp [Check.within, Scope.within, popped]

theorem keeps_within {body : Check} (declares : OnlyDeclares body) : Keeps (Check.within body) := by
  intro scope
  rw [within_apply declares]

theorem onlyDeclares_hereditary : Hereditary fun _ => OnlyDeclares where
  pure a := (keeps_pure a).onlyDeclares
  bind first next := first.bind next
  within inside := (keeps_within inside).onlyDeclares
  infer _ := (keeps_query _).onlyDeclares
  require _ _ := (keeps_query _).onlyDeclares
  assigned _ := (keeps_query _).onlyDeclares
  declare name ty := onlyDeclares_declare name ty

theorem within_eq_ok_iff {body : Check} (declares : OnlyDeclares body) {u : Unit}
    {scope scope' : Scope Ty} :
    Check.within body scope = (.ok u, scope') ↔
      (∃ inner, body scope.push = (.ok (), inner)) ∧ scope' = scope := by
  rw [within_apply declares, Prod.mk.injEq, eq_comm (a := scope)]
  refine and_congr_left fun _ => ⟨fun h => ⟨_, Prod.ext h rfl⟩, ?_⟩
  rintro ⟨inner, h⟩
  rw [h]

theorem declare_eq_ok_iff {name : String} {ty : Ty} {scope scope' : Scope Ty} :
    Check.declare name ty scope = (.ok (), scope') ↔ scope.declare name ty = .ok scope' := by
  cases declared : scope.declare name ty <;>
    simp [Check.declare, Attempt.advance, declared]

theorem assigned_eq_ok_iff {name : String} {ty : Ty} {scope scope' : Scope Ty} :
    Check.assigned name scope = (.ok ty, scope') ↔
      scope.get? name = some ty ∧ scope' = scope := by
  cases found : scope.get? name <;> simp [Check.assigned, found, eq_comm]

theorem require_eq_ok_iff {expected actual : Ty} {u : Unit} {scope scope' : Scope Ty} :
    Check.require expected actual scope = (.ok u, scope') ↔
      expected = actual ∧ scope' = scope := by
  by_cases same : expected = actual <;>
    simp [Check.require, Ty.require, same, eq_comm]

theorem infer_eq_ok_iff {e : Expr} {ty : Ty} {scope scope' : Scope Ty} :
    Check.infer e scope = (.ok ty, scope') ↔ e.infer scope = .ok ty ∧ scope' = scope :=
  Attempt.query_eq_ok_iff

end Check

namespace Stmt

open Check

variable {scope scope' : Scope Ty}

theorem onlyDeclares_check (s : Stmt) : OnlyDeclares s.check :=
  check_of_hereditary onlyDeclares_hereditary s 0

theorem onlyDeclares_checkAll (body : List Stmt) : OnlyDeclares (checkAll body) :=
  checkAll_of_hereditary onlyDeclares_hereditary body 0

theorem keeps_checkOption (missing : Option Stmt) : Keeps (checkOption missing) := by
  cases missing with
  | none => exact keeps_pure ()
  | some s => exact keeps_within (onlyDeclares_check s)

theorem keeps_checkCases (ty : Ty) (entries : List (Value × Stmt)) :
    Keeps (checkCases ty entries) := by
  induction entries with
  | nil => exact keeps_pure ()
  | cons entry rest ih =>
      refine (keeps_query _).bind fun _ => ?_
      exact (keeps_within (onlyDeclares_check entry.2)).bind fun _ => ih

/-- Only a declaration changes the scope. -/
theorem keeps_check {s : Stmt} (other : ∀ name value, s ≠ .declare name value) :
    Keeps s.check := by
  cases s with
  | declare name value => exact absurd rfl (other name value)
  | assign name value =>
      refine (keeps_query _).bind fun _ => ?_
      exact (keeps_query _).bind fun _ => keeps_query _
  | print value => exact (keeps_query _).bind fun _ => keeps_pure ()
  | block body => exact keeps_within (onlyDeclares_checkAll body)
  | branch condition onTrue onFalse =>
      refine (keeps_query _).bind fun _ => (keeps_query _).bind fun _ => ?_
      exact (keeps_within (onlyDeclares_check onTrue)).bind fun _ => keeps_checkOption onFalse
  | loop condition body =>
      refine keeps_within ((keeps_query _).onlyDeclares.bind fun _ => ?_)
      exact (keeps_query _).onlyDeclares.bind fun _ => onlyDeclares_check body
  | switch focus cases fallback =>
      refine (keeps_query _).bind fun ty => ?_
      exact (keeps_checkCases ty _).bind fun _ => keeps_checkOption fallback

theorem check_declare_iff {name : String} {value : Expr} :
    (Stmt.declare name value).check scope = (.ok (), scope') ↔
      ∃ ty, value.infer scope = .ok ty ∧ scope.declare name ty = .ok scope' := by
  simp only [check, Attempt.bind_eq_ok_iff, infer_eq_ok_iff, Check.declare_eq_ok_iff]
  constructor
  · rintro ⟨ty, _, ⟨typed, rfl⟩, declared⟩
    exact ⟨ty, typed, declared⟩
  · rintro ⟨ty, typed, declared⟩
    exact ⟨ty, scope, ⟨typed, rfl⟩, declared⟩

theorem check_assign_iff {name : String} {value : Expr} :
    (Stmt.assign name value).check scope = (.ok (), scope') ↔
      (∃ ty, scope.get? name = some ty ∧ value.infer scope = .ok ty) ∧ scope' = scope := by
  simp only [check, Attempt.bind_eq_ok_iff, infer_eq_ok_iff, assigned_eq_ok_iff,
    require_eq_ok_iff]
  constructor
  · rintro ⟨ty, _, ⟨found, rfl⟩, _, _, ⟨typed, rfl⟩, rfl, rfl⟩
    exact ⟨⟨ty, found, typed⟩, rfl⟩
  · rintro ⟨⟨ty, found, typed⟩, rfl⟩
    exact ⟨ty, _, ⟨found, rfl⟩, ty, _, ⟨typed, rfl⟩, rfl, rfl⟩

theorem check_print_iff {value : Expr} :
    (Stmt.print value).check scope = (.ok (), scope') ↔
      (∃ ty, value.infer scope = .ok ty) ∧ scope' = scope := by
  simp only [check, Attempt.bind_eq_ok_iff, infer_eq_ok_iff]
  constructor
  · rintro ⟨ty, _, ⟨typed, rfl⟩, done⟩
    cases done
    exact ⟨⟨ty, typed⟩, rfl⟩
  · rintro ⟨⟨ty, typed⟩, rfl⟩
    exact ⟨ty, _, ⟨typed, rfl⟩, rfl⟩

theorem checkAll_cons_iff {s : Stmt} {rest : List Stmt} :
    checkAll (s :: rest) scope = (.ok (), scope') ↔
      ∃ middle, s.check scope = (.ok (), middle) ∧ checkAll rest middle = (.ok (), scope') := by
  simp only [checkAll, Attempt.bind_eq_ok_iff]
  constructor
  · rintro ⟨_, middle, passes⟩
    exact ⟨middle, passes⟩
  · rintro ⟨middle, passes⟩
    exact ⟨(), middle, passes⟩

theorem check_block_iff {body : List Stmt} :
    (Stmt.block body).check scope = (.ok (), scope') ↔
      (∃ inner, checkAll body scope.push = (.ok (), inner)) ∧ scope' = scope :=
  within_eq_ok_iff (onlyDeclares_checkAll body)

theorem checkOption_iff {missing : Option Stmt} {u : Unit} :
    checkOption missing scope = (.ok u, scope') ↔
      (∀ s, missing = some s → ∃ inner, s.check scope.push = (.ok (), inner)) ∧
        scope' = scope := by
  cases missing with
  | none => simp [checkOption, eq_comm]
  | some s =>
      rw [checkOption, within_eq_ok_iff (onlyDeclares_check s)]
      simp

theorem check_branch_iff {condition : Expr} {onTrue : Stmt} {onFalse : Option Stmt} :
    (Stmt.branch condition onTrue onFalse).check scope = (.ok (), scope') ↔
      condition.infer scope = .ok .bool ∧
      (∃ inner, onTrue.check scope.push = (.ok (), inner)) ∧
      (∀ s, onFalse = some s → ∃ inner, s.check scope.push = (.ok (), inner)) ∧
      scope' = scope := by
  simp only [check, Attempt.bind_eq_ok_iff, infer_eq_ok_iff, require_eq_ok_iff,
    within_eq_ok_iff (onlyDeclares_check onTrue), checkOption_iff]
  constructor
  · rintro ⟨_, _, ⟨typed, rfl⟩, _, _, ⟨rfl, rfl⟩, _, _, ⟨atTrue, rfl⟩, atFalse, rfl⟩
    exact ⟨typed, atTrue, atFalse, rfl⟩
  · rintro ⟨typed, atTrue, atFalse, rfl⟩
    exact ⟨_, _, ⟨typed, rfl⟩, (), _, ⟨rfl, rfl⟩, (), _, ⟨atTrue, rfl⟩, atFalse, rfl⟩

theorem check_loop_iff {condition : Expr} {body : Stmt} :
    (Stmt.loop condition body).check scope = (.ok (), scope') ↔
      condition.infer scope.push = .ok .bool ∧
      (∃ inner, body.check scope.push = (.ok (), inner)) ∧ scope' = scope := by
  have declares : OnlyDeclares (do
      let ty ← Check.infer condition
      Check.require .bool ty
      body.check) := by
    refine (keeps_query _).onlyDeclares.bind fun _ => ?_
    exact (keeps_query _).onlyDeclares.bind fun _ => onlyDeclares_check body
  rw [check, within_eq_ok_iff declares]
  simp only [Attempt.bind_eq_ok_iff, infer_eq_ok_iff, require_eq_ok_iff]
  constructor
  · rintro ⟨⟨inner, _, _, ⟨typed, rfl⟩, _, _, ⟨rfl, rfl⟩, atBody⟩, rfl⟩
    exact ⟨typed, ⟨inner, atBody⟩, rfl⟩
  · rintro ⟨typed, ⟨inner, atBody⟩, rfl⟩
    exact ⟨⟨inner, _, _, ⟨typed, rfl⟩, (), _, ⟨rfl, rfl⟩, atBody⟩, rfl⟩

theorem checkCases_iff {ty : Ty} {entries : List (Value × Stmt)} {u : Unit} :
    checkCases ty entries scope = (.ok u, scope') ↔
      (∀ entry ∈ entries, ty = entry.1.ty ∧
        ∃ inner, entry.2.check scope.push = (.ok (), inner)) ∧ scope' = scope := by
  induction entries with
  | nil => simp [checkCases, eq_comm]
  | cons entry rest ih =>
      simp only [checkCases, Attempt.bind_eq_ok_iff, require_eq_ok_iff,
        within_eq_ok_iff (onlyDeclares_check entry.2), List.forall_mem_cons]
      constructor
      · rintro ⟨_, _, ⟨label, rfl⟩, _, _, ⟨atHead, rfl⟩, inRest⟩
        obtain ⟨inRest, rfl⟩ := ih.mp inRest
        exact ⟨⟨⟨label, atHead⟩, inRest⟩, rfl⟩
      · rintro ⟨⟨⟨label, atHead⟩, inRest⟩, rfl⟩
        exact ⟨(), _, ⟨label, rfl⟩, (), _, ⟨atHead, rfl⟩, ih.mpr ⟨inRest, rfl⟩⟩

theorem check_switch_iff {focus : Expr} {cases : Cases Stmt} {fallback : Option Stmt} :
    (Stmt.switch focus cases fallback).check scope = (.ok (), scope') ↔
      (∃ ty, focus.infer scope = .ok ty ∧ ∀ entry ∈ cases.entries, ty = entry.1.ty ∧
        ∃ inner, entry.2.check scope.push = (.ok (), inner)) ∧
      (∀ s, fallback = some s → ∃ inner, s.check scope.push = (.ok (), inner)) ∧
      scope' = scope := by
  obtain ⟨entries⟩ := cases
  simp only [check, Attempt.bind_eq_ok_iff, infer_eq_ok_iff, checkCases_iff, checkOption_iff]
  constructor
  · rintro ⟨ty, _, ⟨typed, rfl⟩, _, _, ⟨atCases, rfl⟩, atFallback, rfl⟩
    exact ⟨⟨ty, typed, atCases⟩, atFallback, rfl⟩
  · rintro ⟨⟨ty, typed, atCases⟩, atFallback, rfl⟩
    exact ⟨ty, _, ⟨typed, rfl⟩, (), _, ⟨atCases, rfl⟩, atFallback, rfl⟩

end Stmt
end Scriptlet
