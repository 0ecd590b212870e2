/-!
# Computations that keep their state when they fail

An `Attempt` runs on a state and ends with a value or with an error. The state
it reached is part of the answer in both cases: a parser that stops at a wrong
token stays there, and a program that fails keeps what it has printed.
-/

namespace Scriptlet

/-- A computation on a state `σ` that answers an `α` or fails with an `ε`. -/
def Attempt (ε σ α : Type) : Type := σ → Except ε α × σ

namespace Attempt

variable {ε ε' σ α β : Type}

@[always_inline, inline]
protected def pure (a : α) : Attempt ε σ α := fun s => (.ok a, s)

/-- The second computation runs on the state that the first one reached, and
only if the first one succeeded. -/
@[always_inline, inline]
protected def bind (x : Attempt ε σ α) (f : α → Attempt ε σ β) : Attempt ε σ β := fun s =>
  match x s with
  | (.ok a, t) => f a t
  | (.error e, t) => (.error e, t)

@[always_inline]
instance : Monad (Attempt ε σ) where
  pure := Attempt.pure
  bind := Attempt.bind

/-- Fails and leaves the state alone. -/
@[inline]
def fail (e : ε) : Attempt ε σ α := fun s => (.error e, s)

/-- Reads a part of the state. -/
@[inline]
def view (f : σ → α) : Attempt ε σ α := fun s => (.ok (f s), s)

/-- Changes the state. -/
@[inline]
def change (f : σ → σ) : Attempt ε σ Unit := fun s => (.ok (), f s)

/-- Answers what a function of the state answers, and leaves the state alone. -/
@[inline]
def query (f : σ → Except ε α) : Attempt ε σ α := fun s => (f s, s)

/-- Moves to the state that a partial function gives, or fails where it stands. -/
@[inline]
def advance (f : σ → Except ε σ) : Attempt ε σ Unit := fun s =>
  match f s with
  | .ok t => (.ok (), t)
  | .error e => (.error e, s)

/-- Restates the error of a computation. -/
@[inline]
def mapError (f : ε → ε') (x : Attempt ε σ α) : Attempt ε' σ α := fun s =>
  match x s with
  | (.ok a, t) => (.ok a, t)
  | (.error e, t) => (.error (f e), t)

@[simp] theorem pure_apply (a : α) (s : σ) : (pure a : Attempt ε σ α) s = (.ok a, s) := rfl

theorem bind_apply (x : Attempt ε σ α) (f : α → Attempt ε σ β) (s : σ) :
    (x >>= f) s =
      match x s with
      | (.ok a, t) => f a t
      | (.error e, t) => (.error e, t) := rfl

theorem bind_ok {x : Attempt ε σ α} {s t : σ} {a : α} (h : x s = (.ok a, t))
    (f : α → Attempt ε σ β) : (x >>= f) s = f a t := by
  rw [bind_apply, h]

theorem bind_error {x : Attempt ε σ α} {s t : σ} {e : ε} (h : x s = (.error e, t))
    (f : α → Attempt ε σ β) : (x >>= f) s = (.error e, t) := by
  rw [bind_apply, h]

@[simp] theorem fail_apply (e : ε) (s : σ) : (fail e : Attempt ε σ α) s = (.error e, s) := rfl

@[simp] theorem view_apply (f : σ → α) (s : σ) :
    (view f : Attempt ε σ α) s = (.ok (f s), s) := rfl

@[simp] theorem change_apply (f : σ → σ) (s : σ) :
    (change f : Attempt ε σ Unit) s = (.ok (), f s) := rfl

@[simp] theorem query_apply (f : σ → Except ε α) (s : σ) : query f s = (f s, s) := rfl

end Attempt
end Scriptlet
