import Scriptlet.Proofs.Scope.Frames

/-!
# One more frame at the bottom

`Scope.raise` puts an empty frame between the global frame and all others. Nothing
that is done to a scope with a pushed frame can tell the difference: the empty frame
binds no name, and declarations go to a frame above it.
-/

namespace Scriptlet.Scope

variable {α : Type} {s t : Scope α}

/-- The same frames over one more, which is empty. -/
def raise (s : Scope α) : Scope α := { s with frames := s.frames ++ [[]] }

@[simp] theorem push_raise (s : Scope α) : s.raise.push = s.push.raise := rfl

/-- Without other frames, the new one is on top. -/
theorem raise_eq_push (flat : s.depth = 1) : s.raise = s.push := by
  obtain ⟨_ | ⟨frame, rest⟩, globals⟩ := s
  · rfl
  · exact absurd flat (by simp [depth])

@[simp] theorem get?_raise (s : Scope α) (name : String) : s.raise.get? name = s.get? name := by
  simp [get?, levels, raise, List.findSome?_append, List.findSome?_cons]

theorem pop_raise (popped : s.pop = .ok t) : s.raise.pop = .ok t.raise := by
  obtain ⟨_ | ⟨frame, rest⟩, globals⟩ := s
  · cases popped
  · cases popped
    rfl

theorem declare_raise (pushed : 2 ≤ s.depth) (name : String) (entry : α) :
    s.raise.declare name entry = (s.declare name entry).map raise := by
  obtain ⟨_ | ⟨frame, rest⟩, globals⟩ := s
  · exact absurd pushed (by simp [depth])
  · cases bound : (Frame.get? frame name).isSome <;> simp [declare, raise, bound, Except.map]

/-- The empty frame is not the innermost one that binds a name. -/
theorem setInnermost_raise (name : String) (entry : α) (frames : List (Frame α)) :
    setInnermost name entry (frames ++ [[]]) = setInnermost name entry frames ++ [[]] := by
  induction frames with
  | nil => simp [setInnermost]
  | cons frame rest ih =>
      cases bound : (Frame.get? frame name).isSome <;> simp [setInnermost, bound, ih]

theorem update_raise (s : Scope α) (name : String) (entry : α) :
    s.raise.update name entry = (s.update name entry).map raise := by
  have bound : (s.raise.frames.any fun frame => (frame.get? name).isSome) =
      s.frames.any fun frame => (frame.get? name).isSome := by
    simp [raise]
  unfold update
  rw [bound]
  split
  · simp [raise, setInnermost_raise, Except.map]
  · by_cases global : (s.globals.get? name).isSome <;> simp [raise, global, Except.map]

end Scriptlet.Scope
