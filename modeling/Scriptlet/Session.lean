import Scriptlet.Exec
import Scriptlet.Typing

/-!
# Sessions

Statements entered one by one. Each is checked and then run whatever the check
says, and both scopes last from one statement to the next.
-/

namespace Scriptlet

/-- The types and values of the variables so far. -/
structure Session (σ : Type) where
  types : Scope Ty
  machine : Machine σ

namespace Session

variable {σ : Type} [InputSource σ]

/-- A session in which nothing is declared. -/
def start (input : σ) : Session σ := ⟨.empty, .start input⟩

/-- What became of one statement. -/
structure Step where
  checked : Except StaticError Unit
  ran : Except Halt Unit
  /-- The values that this statement printed. -/
  printed : List Value

/-- Checks and runs the next statement. -/
def step (rounds : Nat) (session : Session σ) (s : Stmt) : Step × Session σ :=
  let (checked, types) := s.check session.types
  let (ran, machine) := s.exec rounds { session.machine with output := #[] }
  (⟨checked, ran, machine.output.toList⟩, ⟨types, machine⟩)

end Session
end Scriptlet
