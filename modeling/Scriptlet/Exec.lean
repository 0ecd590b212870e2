import Scriptlet.Eval

/-!
# Execution

A machine holds the variables, the input source and what has been printed. A
statement changes the machine, and leaves it as it stands when it fails. A loop
is given a number of rounds; a loop that needs more is unfinished, which is
neither success nor failure, and more rounds never change a finished run.
-/

namespace Scriptlet

/-- The state of a running program. -/
structure Machine (σ : Type) where
  scope : Scope Value
  input : σ
  output : Array Value

/-- A machine at the start of a program. -/
def Machine.start {σ : Type} (input : σ) : Machine σ := ⟨.empty, input, #[]⟩

/-- Why a run did not come to its end. -/
inductive Halt where
  | failed (e : RuntimeError)
  /-- A loop used up its rounds. -/
  | unfinished
  deriving DecidableEq

/-- A step of a running program. -/
abbrev Run (σ α : Type) : Type := Attempt Halt (Machine σ) α

namespace Run

variable {σ : Type}

/-- Evaluates an expression in the present scope. -/
def eval [InputSource σ] (e : Expr) : Run σ Value := fun m =>
  match e.eval m.scope m.input with
  | (.ok v, input) => (.ok v, { m with input })
  | (.error e, input) => (.error (.failed e), { m with input })

/-- Changes the scope. -/
def rescope (f : Scope Value → Except ScopeError (Scope Value)) : Run σ Unit := fun m =>
  match f m.scope with
  | .ok scope => (.ok (), { m with scope })
  | .error e => (.error (.failed (.scope e)), m)

/-- Prints a value. -/
def print (v : Value) : Run σ Unit := .change fun m => { m with output := m.output.push v }

/-- Runs in a frame of its own, which is taken away afterwards whether or not the
run succeeded. -/
def within (body : Run σ Unit) : Run σ Unit := fun m =>
  let (result, inner) := body { m with scope := m.scope.push }
  match inner.scope.pop with
  | .ok scope => (result, { inner with scope })
  | .error e => (.error (.failed (.scope e)), inner)

/-- Repeats a body as long as a condition holds, for fewer than `rounds` rounds. -/
def repeatWhile (condition : Run σ Value) (body : Run σ Unit) : (rounds : Nat) → Run σ Unit
  | 0 => .fail .unfinished
  | rounds + 1 => do
    let v ← condition
    if v.truthy then do
      body
      repeatWhile condition body rounds
    else pure ()

end Run

namespace Stmt

variable {σ : Type} [InputSource σ]

mutual

/-- Executes a statement. A conditional, a loop and a `switch` each open one
frame around their condition and all that they run. -/
def exec (rounds : Nat) : Stmt → Run σ Unit
  | .declare name value => do
    let v ← Run.eval value
    Run.rescope (·.declare name v)
  | .assign name value => do
    let v ← Run.eval value
    Run.rescope (·.update name v)
  | .print value => do
    let v ← Run.eval value
    Run.print v
  | .block body => Run.within (execAll rounds body)
  | .branch condition onTrue onFalse => Run.within do
    let v ← Run.eval condition
    if v.truthy then onTrue.exec rounds else execOption rounds onFalse
  | .loop condition body =>
    Run.within (Run.repeatWhile (Run.eval condition) (body.exec rounds) rounds)
  | .switch focus ⟨cases⟩ fallback => Run.within do
    let v ← Run.eval focus
    execCase rounds v (execOption rounds fallback) cases

/-- Executes statements one after the other. -/
def execAll (rounds : Nat) : List Stmt → Run σ Unit
  | [] => pure ()
  | s :: rest => do
    s.exec rounds
    execAll rounds rest

/-- Executes a statement that may be missing. -/
def execOption (rounds : Nat) : Option Stmt → Run σ Unit
  | none => pure ()
  | some s => s.exec rounds

/-- Executes the case with the label that a value has, or else a fallback. -/
def execCase (rounds : Nat) (v : Value) (otherwise : Run σ Unit) :
    List (Value × Stmt) → Run σ Unit
  | [] => otherwise
  | (label, body) :: rest =>
    if label.sameKey v then body.exec rounds else execCase rounds v otherwise rest

end

/-- Executes a whole program on a new machine. -/
def execute (rounds : Nat) (program : Stmt) (input : σ) : Except Halt Unit × Machine σ :=
  program.exec rounds (.start input)

end Stmt
end Scriptlet
