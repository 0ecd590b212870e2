import Mathlib.Data.List.Forall2
import Scriptlet.Proofs.Scope.Frames

/-!
# Agreement of types and values

A scope of types and a scope of values agree if they have the same frames, each
frame binds the same names in both, and every value has the type recorded for
its name. `Scope.Fits` is the same except that some names may be recorded in the
global frame and have no value there: that is how a declaration is left whose
value could not be found. Every operation of a scope keeps the two in step.
-/

namespace Scriptlet

namespace Frame

/-- The same names, each with a value of the recorded type. -/
def Agrees (types : Frame Ty) (values : Frame Value) : Prop :=
  ∀ name, (values.get? name).map Value.ty = types.get? name

/-- Agreement in which the names in `missing` need not have a value. -/
def Fits (missing : String → Prop) (types : Frame Ty) (values : Frame Value) : Prop :=
  ∀ name, (values.get? name).map Value.ty = types.get? name ∨
    values.get? name = none ∧ missing name

variable {missing : String → Prop} {types : Frame Ty} {values : Frame Value}

theorem agrees_iff_fits : types.Agrees values ↔ types.Fits (fun _ => False) values := by
  simp [Agrees, Fits]

theorem Agrees.nil : Agrees [] [] := fun _ => rfl

namespace Fits

theorem cons (fits : types.Fits missing values) (name : String) (v : Value) :
    Fits missing ((name, v.ty) :: types) ((name, v) :: values) := by
  intro x
  by_cases same : x = name
  · simp [same]
  · simpa [same] using fits x

theorem set (fits : types.Fits missing values) {name : String} {v : Value}
    (bound : (values.get? name).isSome) (typed : types.get? name = some v.ty) :
    types.Fits missing (values.set name v) := by
  intro x
  rw [get?_set bound]
  by_cases same : x = name
  · simp [same, typed]
  · simpa [same] using fits x

/-- What has no type has no value. -/
theorem get?_eq_none (fits : types.Fits missing values) {name : String}
    (free : types.get? name = none) : values.get? name = none := by
  rcases fits name with same | ⟨absent, _⟩
  · simpa [free] using same
  · exact absent

end Fits
end Frame

namespace Scope

/-- The same frames with the same names, each with a value of the recorded type. -/
structure Agrees (types : Scope Ty) (values : Scope Value) : Prop where
  frames : List.Forall₂ Frame.Agrees types.frames values.frames
  globals : types.globals.Agrees values.globals

/-- Agreement in which the names in `missing` need not have a value in the
global frame. -/
structure Fits (missing : String → Prop) (types : Scope Ty) (values : Scope Value) : Prop where
  frames : List.Forall₂ Frame.Agrees types.frames values.frames
  globals : types.globals.Fits missing values.globals

theorem agrees_iff_fits {types : Scope Ty} {values : Scope Value} :
    types.Agrees values ↔ types.Fits (fun _ => False) values :=
  ⟨fun h => ⟨h.frames, Frame.agrees_iff_fits.mp h.globals⟩,
    fun h => ⟨h.frames, Frame.agrees_iff_fits.mpr h.globals⟩⟩

theorem agrees_empty : (empty : Scope Ty).Agrees empty := ⟨.nil, Frame.Agrees.nil⟩

namespace Fits

variable {missing : String → Prop} {types types' : Scope Ty} {values : Scope Value}
variable {name : String} {v : Value}

theorem push (fits : types.Fits missing values) : types.push.Fits missing values.push :=
  ⟨.cons Frame.Agrees.nil fits.frames, fits.globals⟩

theorem pop (fits : types.Fits missing values) (popped : types.pop = .ok types') :
    ∃ outer, values.pop = .ok outer ∧ types'.Fits missing outer := by
  obtain ⟨typeFrames, typeGlobals⟩ := types
  obtain ⟨valueFrames, valueGlobals⟩ := values
  obtain ⟨frames, globals⟩ := fits
  cases frames with
  | nil => cases popped
  | cons _ rest =>
      cases popped
      exact ⟨_, rfl, rest, globals⟩

/-- Both scopes know a name at the same type, unless its value is missing. -/
theorem get? (fits : types.Fits missing values) (name : String) :
    (values.get? name).map Value.ty = types.get? name ∨
      values.get? name = none ∧ missing name := by
  obtain ⟨typeFrames, typeGlobals⟩ := types
  obtain ⟨valueFrames, valueGlobals⟩ := values
  obtain ⟨frames, globals⟩ := fits
  dsimp only at frames globals
  induction frames with
  | nil => simpa using globals name
  | @cons frame frame' _ _ head _ ih =>
      have top := head name
      cases found : Frame.get? frame' name with
      | none =>
          rw [found] at top
          simpa [found, ← top] using ih
      | some u =>
          rw [found] at top
          simp [found, ← top]

theorem declare (fits : types.Fits missing values)
    (declared : types.declare name v.ty = .ok types') :
    ∃ values', values.declare name v = .ok values' ∧ types'.Fits missing values' := by
  obtain ⟨free, rfl⟩ := declare_eq_ok_iff.mp declared
  obtain ⟨typeFrames, typeGlobals⟩ := types
  obtain ⟨valueFrames, valueGlobals⟩ := values
  obtain ⟨frames, globals⟩ := fits
  cases frames with
  | nil =>
      have free' : Frame.get? valueGlobals name = none := globals.get?_eq_none free
      exact ⟨_, declare_eq_ok_iff.mpr ⟨free', rfl⟩, .nil, globals.cons name v⟩
  | cons head rest =>
      have fitsHead := Frame.agrees_iff_fits.mp head
      refine ⟨_, declare_eq_ok_iff.mpr ⟨fitsHead.get?_eq_none free, rfl⟩, ?_, globals⟩
      exact .cons (Frame.agrees_iff_fits.mpr (fitsHead.cons name v)) rest

/-- A value has the recorded type. -/
theorem ty_eq (fits : types.Fits missing values) (bound : values.get? name = some v) :
    types.get? name = some v.ty := by
  rcases fits.get? name with same | ⟨absent, _⟩
  · simpa [bound] using same.symm
  · simp [bound] at absent

/-- Where any value may be missing, the types can be ahead of the values by any
number of global declarations. -/
theorem grow (outermost : types.frames = []) (fits : types.Fits (fun _ => True) values)
    (grown : types.Grows types') : types'.Fits (fun _ => True) values := by
  induction grown with
  | refl => exact fits
  | @tail middle _ before step ih =>
      obtain ⟨name, ty, declared⟩ := step
      have noFrames : middle.frames = [] := (Grows.globals outermost before).1
      obtain ⟨free, rfl⟩ := declare_global noFrames declared
      refine ⟨noFrames ▸ ih.frames, fun x => ?_⟩
      by_cases same : x = name
      · have unrecorded : middle.globals.get? name = none := by
          obtain ⟨frames, globals⟩ := middle
          cases noFrames
          simpa using free
        exact .inr ⟨by rw [same]; exact ih.globals.get?_eq_none unrecorded, trivial⟩
      · simpa [same] using ih.globals x

/-- If no pushed frame has a value for a name, its type is that of the global frame. -/
private theorem get?_eq_globals {typeFrames : List (Frame Ty)} {valueFrames : List (Frame Value)}
    (frames : List.Forall₂ Frame.Agrees typeFrames valueFrames) (globals : Frame Ty)
    (unbound : (valueFrames.any fun frame => (frame.get? name).isSome) = false) :
    (⟨typeFrames, globals⟩ : Scope Ty).get? name = globals.get? name := by
  induction frames with
  | nil => simp
  | @cons frame frame' _ _ head _ ih =>
      simp only [List.any_cons, Bool.or_eq_false_iff, Option.isSome_eq_false_iff,
        Option.isNone_iff_eq_none] at unbound
      have free : Frame.get? frame name = none := by rw [← head name, unbound.1]; rfl
      simpa [free] using ih unbound.2

/-- Giving the innermost binding a value of its type keeps the pushed frames in step. -/
private theorem forall₂_setInnermost {typeFrames : List (Frame Ty)}
    {valueFrames : List (Frame Value)} {globals : Frame Ty}
    (frames : List.Forall₂ Frame.Agrees typeFrames valueFrames)
    (bound : (valueFrames.any fun frame => (frame.get? name).isSome) = true)
    (typed : (⟨typeFrames, globals⟩ : Scope Ty).get? name = some v.ty) :
    List.Forall₂ Frame.Agrees typeFrames (setInnermost name v valueFrames) := by
  induction frames with
  | nil => simp at bound
  | @cons frame frame' _ _ head rest ih =>
      cases found : Frame.get? frame' name with
      | none =>
          have free : Frame.get? frame name = none := by rw [← head name, found]; rfl
          simp only [List.any_cons, found, Option.isSome_none, Bool.false_or] at bound
          simp only [get?_frame, free, Option.none_or] at typed
          simp only [setInnermost, found, Option.isSome_none, Bool.false_eq_true, if_false]
          exact .cons head (ih bound typed)
      | some old =>
          have here : Frame.get? frame name = some old.ty := by rw [← head name, found]; rfl
          simp only [get?_frame, here, Option.some_or] at typed
          simp only [setInnermost, found, Option.isSome_some, if_true]
          refine .cons (Frame.agrees_iff_fits.mpr ?_) rest
          exact (Frame.agrees_iff_fits.mp head).set (by simp [found]) (here.trans typed)

/-- An assignment of a value of the recorded type keeps the scopes in step. It
fails only if the variable is recorded and has no value. -/
theorem update (fits : types.Fits missing values) (typed : types.get? name = some v.ty) :
    (∃ values', values.update name v = .ok values' ∧ types.Fits missing values') ∨
      missing name ∧ values.update name v = .error (.undeclared name) := by
  obtain ⟨typeFrames, typeGlobals⟩ := types
  obtain ⟨valueFrames, valueGlobals⟩ := values
  obtain ⟨frames, globals⟩ := fits
  cases bound : valueFrames.any fun frame => (frame.get? name).isSome with
  | true =>
      refine .inl ⟨_, if_pos bound, forall₂_setInnermost frames bound typed, globals⟩
  | false =>
      rw [get?_eq_globals frames typeGlobals bound] at typed
      have skipped : (⟨valueFrames, valueGlobals⟩ : Scope Value).update name v =
          if (valueGlobals.get? name).isSome then
            .ok ⟨valueFrames, valueGlobals.set name v⟩ else .error (.undeclared name) := by
        simp only [Scope.update, bound, Bool.false_eq_true, if_false]
      rw [skipped]
      cases found : valueGlobals.get? name with
      | some old =>
          exact .inl ⟨_, rfl, frames, globals.set (by simp [found]) typed⟩
      | none =>
          rcases globals name with same | ⟨_, absent⟩
          · simp [found, typed] at same
          · exact .inr ⟨absent, rfl⟩

end Fits
end Scope
end Scriptlet
