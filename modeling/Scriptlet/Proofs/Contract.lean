import Scriptlet.Attempt

/-!
# Contracts of computations

A contract says what holds of the value and the state if a computation succeeds,
and what holds of the error and the state if it fails. Both halves speak about
one run from one state, so a contract of a sequence is put together from the
contracts of its steps without opening them. `Attempt.Commutes` is about two runs: it
says that a computation does the same after some change of the state as before it.
-/

namespace Scriptlet

/-- A sequence without a state succeeds by its two steps succeeding. -/
theorem except_bind_eq_ok_iff {ε α β : Type} {x : Except ε α} {f : α → Except ε β} {b : β} :
    x >>= f = .ok b ↔ ∃ a, x = .ok a ∧ f a = .ok b := by
  cases x <;> simp [bind, Except.bind]

@[simp] theorem except_mapError_ok {ε ε' α : Type} (f : ε → ε') (a : α) :
    (Except.ok a).mapError f = .ok a := rfl

@[simp] theorem except_mapError_error {ε ε' α : Type} (f : ε → ε') (e : ε) :
    (Except.error e : Except ε α).mapError f = .error (f e) := rfl

namespace Attempt

variable {ε σ α β : Type}

/-- From `s`, the computation succeeds with `done` or fails with `failed`. -/
def Ensures (x : Attempt ε σ α) (s : σ) (done : α → σ → Prop) (failed : ε → σ → Prop) : Prop :=
  match x s with
  | (.ok a, t) => done a t
  | (.error e, t) => failed e t

variable {x : Attempt ε σ α} {s t : σ} {a : α} {e : ε}
variable {done done' : α → σ → Prop} {failed failed' : ε → σ → Prop}

theorem ensures_iff :
    x.Ensures s done failed ↔
      (∀ a t, x s = (.ok a, t) → done a t) ∧ ∀ e t, x s = (.error e, t) → failed e t := by
  unfold Ensures
  rcases x s with ⟨_ | _, t⟩ <;> simp

theorem ensures_of_ok (h : x s = (.ok a, t)) : x.Ensures s done failed ↔ done a t := by
  simp only [Ensures, h]

theorem ensures_of_error (h : x s = (.error e, t)) :
    x.Ensures s done failed ↔ failed e t := by
  simp only [Ensures, h]

theorem Ensures.mono (h : x.Ensures s done failed)
    (onDone : ∀ a t, done a t → done' a t) (onFailed : ∀ e t, failed e t → failed' e t) :
    x.Ensures s done' failed' := by
  rw [ensures_iff] at h ⊢
  exact ⟨fun a t hx => onDone a t (h.1 a t hx), fun e t hx => onFailed e t (h.2 e t hx)⟩

@[simp] theorem ensures_pure : (pure a : Attempt ε σ α).Ensures s done failed ↔ done a s :=
  Iff.rfl

/-- The contract of a sequence: the second computation has to meet it from
wherever the first one leaves the state. -/
theorem ensures_bind {f : α → Attempt ε σ β} {done : β → σ → Prop} :
    (x >>= f).Ensures s done failed ↔
      x.Ensures s (fun a t => (f a).Ensures t done failed) failed := by
  unfold Ensures
  rw [bind_apply]
  rcases x s with ⟨_ | _, t⟩ <;> rfl

/-- The same with the run of the first computation at hand. -/
theorem ensures_bind_of {f : α → Attempt ε σ β} {done : β → σ → Prop}
    (onOk : ∀ a t, x s = (.ok a, t) → (f a).Ensures t done failed)
    (onError : ∀ e t, x s = (.error e, t) → failed e t) : (x >>= f).Ensures s done failed :=
  ensures_bind.mpr (ensures_iff.mpr ⟨onOk, onError⟩)

theorem bind_assoc {γ : Type} (x : Attempt ε σ α) (f : α → Attempt ε σ β)
    (g : β → Attempt ε σ γ) : x >>= f >>= g = x >>= fun a => f a >>= g := by
  funext s
  simp only [bind_apply]
  rcases x s with ⟨_ | _, t⟩ <;> rfl

/-- A sequence succeeds by its two steps succeeding one after the other. -/
theorem bind_eq_ok_iff {f : α → Attempt ε σ β} {b : β} {u : σ} :
    (x >>= f) s = (.ok b, u) ↔ ∃ a t, x s = (.ok a, t) ∧ f a t = (.ok b, u) := by
  rw [bind_apply]
  rcases x s with ⟨_ | _, t⟩ <;> simp [and_assoc]

/-- If both steps of a sequence take every state to a related one, so does the
sequence, whether it succeeds or fails. -/
theorem bind_relates (related : σ → σ → Prop) {f : α → Attempt ε σ β}
    (trans : ∀ {s t u}, related s t → related t u → related s u)
    (first : ∀ s, related s (x s).2) (next : ∀ a s, related s (f a s).2) (s : σ) :
    related s ((x >>= f) s).2 := by
  have reached := first s
  rw [bind_apply]
  generalize x s = outcome at reached ⊢
  obtain ⟨e | a, t⟩ := outcome
  · exact reached
  · exact trans reached (next a t)

theorem query_eq_ok_iff {f : σ → Except ε α} :
    query f s = (.ok a, t) ↔ f s = .ok a ∧ t = s := by
  simp [query, eq_comm]

variable {shift : σ → σ} {valid : σ → Prop}

/-- On valid states, which it keeps valid, a computation answers the same whether or
not the state is shifted, and leaves a state that is shifted as much. -/
def Commutes (shift : σ → σ) (valid : σ → Prop) (x : Attempt ε σ α) : Prop :=
  ∀ s, valid s → x (shift s) = ((x s).1, shift (x s).2) ∧ valid (x s).2

theorem Commutes.bind {x : Attempt ε σ α} {f : α → Attempt ε σ β}
    (first : x.Commutes shift valid) (next : ∀ a, (f a).Commutes shift valid) :
    (x >>= f).Commutes shift valid := by
  intro s holds
  obtain ⟨same, kept⟩ := first s holds
  rw [bind_apply, bind_apply, same]
  generalize x s = outcome at kept
  obtain ⟨e | a, t⟩ := outcome
  · exact ⟨rfl, kept⟩
  · exact next a t kept

theorem commutes_pure (a : α) : (pure a : Attempt ε σ α).Commutes shift valid :=
  fun _ holds => ⟨rfl, holds⟩

theorem commutes_fail (e : ε) : (fail e : Attempt ε σ α).Commutes shift valid :=
  fun _ holds => ⟨rfl, holds⟩

theorem commutes_query {f : σ → Except ε α} (same : ∀ s, f (shift s) = f s) :
    (query f).Commutes shift valid :=
  fun s holds => ⟨by simp [same], holds⟩

end Attempt
end Scriptlet
