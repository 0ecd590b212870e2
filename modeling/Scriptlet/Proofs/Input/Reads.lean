import Scriptlet.Input

/-!
# What reads of input give

Running programs rely on one thing only: a read that succeeds gives a value of
the type that was asked for. Both sources of input keep to that. A source that
also never fails is an endless one.
-/

namespace Scriptlet

namespace InputSource

/-- Reads that succeed give a value of the requested type. -/
def Typed (σ : Type) [InputSource σ] : Prop :=
  ∀ (ty : Ty) (input : σ) (v : Value), (read ty input).1 = .ok v → v.ty = ty

/-- Reads always succeed, with a value of the requested type. -/
def Delivers (σ : Type) [InputSource σ] : Prop :=
  ∀ (ty : Ty) (input : σ), ∃ v, (read ty input).1 = .ok v ∧ v.ty = ty

theorem Delivers.typed {σ : Type} [InputSource σ] (delivers : Delivers σ) : Typed σ := by
  intro ty input v given
  obtain ⟨w, read, typed⟩ := delivers ty input
  rw [read] at given
  cases given
  exact typed

end InputSource

theorem Queue.read_of_ty {ty : Ty} {v : Value} (fits : v.ty = ty) (rest : Queue) :
    Queue.read ty (v :: rest) = (.ok v, rest) := if_pos fits

theorem Queue.read_of_ty_ne {ty : Ty} {v : Value} (differs : v.ty ≠ ty) (rest : Queue) :
    Queue.read ty (v :: rest) = (.error (.mismatch ty v), rest) := if_neg differs

theorem Queue.typed : InputSource.Typed Queue := by
  intro ty queue v given
  cases queue with
  | nil => cases given
  | cons first rest =>
      by_cases same : first.ty = ty
      · simp only [InputSource.read, Queue.read, same, if_true] at given
        cases given
        exact same
      · simp [InputSource.read, Queue.read, same] at given

/-- Input that gives the same number and the same truth value to every read. -/
structure ConstantInput where
  num : Float
  truth : Bool

instance : InputSource ConstantInput where
  read ty input :=
    match ty with
    | .num => (.ok (.num input.num), input)
    | .bool => (.ok (.bool input.truth), input)

theorem ConstantInput.delivers : InputSource.Delivers ConstantInput := by
  intro ty input
  cases ty with
  | num => exact ⟨.num input.num, rfl, rfl⟩
  | bool => exact ⟨.bool input.truth, rfl, rfl⟩

/-- What follows the sign of a number is infinity, a numeral, or not read. -/
private theorem ty_of_magnitude {negative : Bool} {magnitude text : List Char} {v : Value}
    (given : (if magnitude = "Infinity".toList then
        some (.num (Binary64.ofRank negative Binary64.infinityRank))
      else if isNumeral magnitude then (Decimal.read? text).map .num else none) = some v) :
    v.ty = .num := by
  split at given
  · cases given; rfl
  · split at given
    · obtain ⟨x, _, rfl⟩ := Option.map_eq_some_iff.mp given
      rfl
    · cases given

/-- Text is read as a value of the requested type or not at all. -/
theorem Value.ty_of_ofInput? {ty : Ty} {text : List Char} {v : Value}
    (given : Value.ofInput? ty text = some v) : v.ty = ty := by
  cases ty with
  | num =>
      simp only [Value.ofInput?] at given
      split at given
      · exact ty_of_magnitude given
      · exact ty_of_magnitude given
  | bool =>
      simp only [Value.ofInput?] at given
      split at given
      · cases given; rfl
      · split at given
        · cases given; rfl
        · cases given

theorem LineInput.typed : InputSource.Typed LineInput := by
  intro ty ⟨lines, prompt⟩ v given
  change (LineInput.readLines ty lines prompt).1 = .ok v at given
  induction lines generalizing prompt with
  | nil =>
      unfold LineInput.readLines at given
      split at given <;> cases given
  | cons line rest ih =>
      unfold LineInput.readLines at given
      split at given
      · cases given
      · dsimp only at given
        split at given
        · cases given
        · split at given
          · rename_i accepted
            cases given
            exact Value.ty_of_ofInput? accepted
          · exact ih _ given

end Scriptlet
