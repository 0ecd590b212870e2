import Mathlib.Logic.Relation
import Scriptlet.Stmt

/-!
# Parts of statements and expressions

The statements that a statement is made of, the variables that an expression
mentions, and induction over statements. The list of a block, a missing branch
and the cases of a `switch` are not statements themselves, so the induction
speaks about their members and leaves the lists to ordinary list induction.
-/

namespace Scriptlet

/-- The variables that an expression mentions, from left to right. -/
def Expr.names : Expr → List String
  | .num _ | .bool _ | .input _ => []
  | .var name => [name]
  | .unary _ operand => operand.names
  | .binary _ left right => left.names ++ right.names

namespace Stmt

/-- `s.Part t` says that `t` is one of the statements directly inside `s`. -/
inductive Part : Stmt → Stmt → Prop
  | block {body : List Stmt} {s : Stmt} : s ∈ body → Part (.block body) s
  | onTrue {condition : Expr} {s : Stmt} {onFalse : Option Stmt} :
      Part (.branch condition s onFalse) s
  | onFalse {condition : Expr} {onTrue s : Stmt} : Part (.branch condition onTrue (some s)) s
  | body {condition : Expr} {s : Stmt} : Part (.loop condition s) s
  | case {focus : Expr} {cases : Cases Stmt} {fallback : Option Stmt} {label : Value} {s : Stmt} :
      (label, s) ∈ cases.entries → Part (.switch focus cases fallback) s
  | fallback {focus : Expr} {cases : Cases Stmt} {s : Stmt} :
      Part (.switch focus cases (some s)) s

/-- `s.Contains t` says that `t` is `s` or lies in it at any depth. -/
def Contains : Stmt → Stmt → Prop := Relation.ReflTransGen Part

/-- A statement has a property if every form passes it on from its parts. -/
@[elab_as_elim, induction_eliminator]
theorem inductionOn {motive : Stmt → Prop}
    (declare : ∀ name value, motive (.declare name value))
    (assign : ∀ name value, motive (.assign name value))
    (print : ∀ value, motive (.print value))
    (block : ∀ body, (∀ s ∈ body, motive s) → motive (.block body))
    (branch : ∀ condition onTrue onFalse, motive onTrue →
      (∀ s, onFalse = some s → motive s) → motive (.branch condition onTrue onFalse))
    (loop : ∀ condition body, motive body → motive (.loop condition body))
    (switch : ∀ focus cases fallback, (∀ entry ∈ cases.entries, motive entry.2) →
      (∀ s, fallback = some s → motive s) → motive (.switch focus cases fallback))
    (s : Stmt) : motive s := by
  refine @Stmt.rec motive
    (fun body => ∀ s ∈ body, motive s)
    (fun missing => ∀ s, missing = some s → motive s)
    (fun cases => ∀ entry ∈ cases.entries, motive entry.2)
    (fun entries => ∀ entry ∈ entries, motive entry.2)
    (fun entry => motive entry.2)
    declare assign print block branch loop switch ?_ ?_ ?_ ?_ ?_ ?_ ?_ ?_ s
  · simp
  · intro head tail atHead inTail
    exact List.forall_mem_cons.mpr ⟨atHead, inTail⟩
  · simp
  · intro present holds s same
    exact Option.some.inj same ▸ holds
  · intro entries holds
    exact holds
  · simp
  · intro head tail atHead inTail
    exact List.forall_mem_cons.mpr ⟨atHead, inTail⟩
  · intro label body holds
    exact holds

/-- A statement has a property if it does whenever all its parts do. -/
theorem inductionOnParts {motive : Stmt → Prop}
    (step : ∀ s, (∀ t, s.Part t → motive t) → motive s) (s : Stmt) : motive s := by
  induction s with
  | declare name value => exact step _ fun t part => nomatch part
  | assign name value => exact step _ fun t part => nomatch part
  | print value => exact step _ fun t part => nomatch part
  | block body parts =>
      refine step _ fun t part => ?_
      cases part with
      | block member => exact parts t member
  | branch condition onTrue onFalse atTrue atFalse =>
      refine step _ fun t part => ?_
      cases part with
      | onTrue => exact atTrue
      | onFalse => exact atFalse t rfl
  | loop condition body atBody =>
      refine step _ fun t part => ?_
      cases part with
      | body => exact atBody
  | switch focus cases fallback atCases atFallback =>
      refine step _ fun t part => ?_
      cases part with
      | case member => exact atCases _ member
      | fallback => exact atFallback t rfl

end Stmt
end Scriptlet
