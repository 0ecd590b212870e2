import Mathlib.Logic.Relation
import Scriptlet.Scope

/-!
# What the operations on scopes do

Every operation is described by what it does to the entry that each name has.
`Scope.Grows` is what a sequence of declarations does to a scope: it only reaches
the innermost frame, so a frame that was pushed before can be taken away after
any number of declarations and leaves the scope that was there.
-/

namespace Scriptlet

namespace Frame

variable {α : Type}

@[simp] theorem get?_nil (name : String) : Frame.get? ([] : Frame α) name = none := rfl

@[simp] theorem get?_cons (x name : String) (entry : α) (frame : Frame α) :
    Frame.get? ((x, entry) :: frame) name = if name = x then some entry else frame.get? name := by
  by_cases same : name = x
  · simp [get?, same]
  · simp [get?, List.lookup_cons, beq_false_of_ne same, same]

/-- A bound name gets the new entry, and all others keep theirs. -/
theorem get?_set {frame : Frame α} {name : String} (bound : (frame.get? name).isSome)
    (entry : α) (x : String) :
    (frame.set name entry).get? x = if x = name then some entry else frame.get? x := by
  induction frame with
  | nil => simp at bound
  | cons binding rest ih =>
      obtain ⟨y, old⟩ := binding
      by_cases same : name = y
      · subst same
        by_cases found : x = name <;> simp [set, found]
      · have inRest : (Frame.get? rest name).isSome := by simpa [same] using bound
        by_cases found : x = y
        · simp [set, same, found, Ne.symm same]
        · simp [set, same, found, ih inRest]

end Frame

namespace Scope

variable {α : Type} {s t : Scope α} {name : String} {entry : α}

@[simp] theorem get?_globals (globals : Frame α) (x : String) :
    (⟨[], globals⟩ : Scope α).get? x = globals.get? x := by
  simp [get?, levels]

@[simp] theorem get?_frame (frame : Frame α) (rest : List (Frame α)) (globals : Frame α)
    (x : String) :
    (⟨frame :: rest, globals⟩ : Scope α).get? x =
      (frame.get? x).or ((⟨rest, globals⟩ : Scope α).get? x) := by
  cases h : frame.get? x <;> simp [get?, levels, List.findSome?_cons, h]

@[simp] theorem get?_push (s : Scope α) (x : String) : s.push.get? x = s.get? x := by
  simp [push]

/-- The innermost frame. -/
def top (s : Scope α) : Frame α :=
  match s.frames with
  | [] => s.globals
  | frame :: _ => frame

/-- Binds a name in the innermost frame, whether or not it is bound there. -/
def bindTop (s : Scope α) (name : String) (entry : α) : Scope α :=
  match s.frames with
  | [] => { s with globals := (name, entry) :: s.globals }
  | frame :: rest => { s with frames := ((name, entry) :: frame) :: rest }

theorem declare_eq_ok_iff :
    s.declare name entry = .ok t ↔ s.top.get? name = none ∧ t = s.bindTop name entry := by
  obtain ⟨_ | ⟨frame, rest⟩, globals⟩ := s
  · cases bound : Frame.get? globals name <;> simp [declare, top, bindTop, bound, eq_comm]
  · cases bound : Frame.get? frame name <;> simp [declare, top, bindTop, bound, eq_comm]

theorem declare_eq_error (bound : (s.top.get? name).isSome) :
    s.declare name entry = .error (.duplicate name) := by
  obtain ⟨_ | ⟨frame, rest⟩, globals⟩ := s
  · exact if_pos bound
  · exact if_pos bound

@[simp] theorem get?_top_bindTop (s : Scope α) (name x : String) (entry : α) :
    (s.bindTop name entry).top.get? x = if x = name then some entry else s.top.get? x := by
  obtain ⟨_ | ⟨frame, rest⟩, globals⟩ := s <;> simp [top, bindTop]

@[simp] theorem get?_bindTop (s : Scope α) (name x : String) (entry : α) :
    (s.bindTop name entry).get? x = if x = name then some entry else s.get? x := by
  obtain ⟨_ | ⟨frame, rest⟩, globals⟩ := s
  · simp [bindTop]
  · by_cases same : x = name <;> simp [bindTop, same]

/-- A declaration gives its name the new entry, and all others keep theirs. -/
theorem get?_declare (declared : s.declare name entry = .ok t) (x : String) :
    t.get? x = if x = name then some entry else s.get? x := by
  obtain ⟨_, rfl⟩ := declare_eq_ok_iff.mp declared
  exact get?_bindTop s name x entry

/-- A name that was declared in a frame cannot be declared there again. -/
theorem declare_of_declare (declared : s.declare name entry = .ok t) (other : α) :
    t.declare name other = .error (.duplicate name) := by
  obtain ⟨_, rfl⟩ := declare_eq_ok_iff.mp declared
  exact declare_eq_error (by simp)

/-- Without pushed frames a declaration is one of a global name. -/
theorem declare_global (outermost : s.frames = []) (declared : s.declare name entry = .ok t) :
    s.get? name = none ∧ t = ⟨[], (name, entry) :: s.globals⟩ := by
  obtain ⟨frames, globals⟩ := s
  cases outermost
  obtain ⟨free, rfl⟩ := declare_eq_ok_iff.mp declared
  exact ⟨by simpa [top] using free, rfl⟩

theorem depth_declare (declared : s.declare name entry = .ok t) : t.depth = s.depth := by
  obtain ⟨_, rfl⟩ := declare_eq_ok_iff.mp declared
  obtain ⟨_ | ⟨frame, rest⟩, globals⟩ := s <;> rfl

theorem length_setInnermost (name : String) (entry : α) (frames : List (Frame α)) :
    (setInnermost name entry frames).length = frames.length := by
  induction frames with
  | nil => rfl
  | cons frame rest ih =>
      by_cases bound : (Frame.get? frame name).isSome <;> simp [setInnermost, bound, ih]

theorem depth_update (updated : s.update name entry = .ok t) : t.depth = s.depth := by
  unfold update at updated
  split at updated
  · cases updated
    exact congrArg (· + 1) (length_setInnermost name entry s.frames)
  · split at updated
    · cases updated
      rfl
    · cases updated

/-- A scope one frame deeper can give that frame back. -/
theorem exists_pop {depth : Nat} (positive : 0 < depth) (deeper : s.depth = depth + 1) :
    ∃ outer, s.pop = .ok outer ∧ outer.depth = depth := by
  obtain ⟨_ | ⟨frame, rest⟩, globals⟩ := s
  · simp only [Scope.depth, List.length_nil] at deeper
    omega
  · exact ⟨⟨rest, globals⟩, rfl, Nat.succ.inj deeper⟩

/-- `s.Grows t` says that declarations lead from `s` to `t`. -/
def Grows : Scope α → Scope α → Prop :=
  Relation.ReflTransGen fun s t => ∃ name entry, s.declare name entry = .ok t

namespace Grows

theorem refl (s : Scope α) : s.Grows s := Relation.ReflTransGen.refl

theorem trans {u : Scope α} (first : s.Grows t) (second : t.Grows u) : s.Grows u :=
  Relation.ReflTransGen.trans first second

theorem declare (declared : s.declare name entry = .ok t) : s.Grows t :=
  Relation.ReflTransGen.single ⟨name, entry, declared⟩

/-- Declarations after a new frame stay in that frame. -/
theorem pop (grown : s.push.Grows t) : t.pop = .ok s := by
  have inFrame : ∃ frame, t = ⟨frame :: s.frames, s.globals⟩ := by
    induction grown with
    | refl => exact ⟨[], rfl⟩
    | tail _ step ih =>
        obtain ⟨frame, rfl⟩ := ih
        obtain ⟨name, entry, declared⟩ := step
        obtain ⟨_, rfl⟩ := declare_eq_ok_iff.mp declared
        exact ⟨(name, entry) :: frame, rfl⟩
  obtain ⟨frame, rfl⟩ := inFrame
  rfl

/-- Declarations in the global frame leave the scope without pushed frames, and
all names that were bound before keep their entries. -/
theorem globals (outermost : s.frames = []) (grown : s.Grows t) :
    t.frames = [] ∧ ∀ x old, s.get? x = some old → t.get? x = some old := by
  induction grown with
  | refl => exact ⟨outermost, fun _ _ bound => bound⟩
  | tail _ step ih =>
      obtain ⟨name, entry, declared⟩ := step
      obtain ⟨noFrames, keeps⟩ := ih
      obtain ⟨free, changed⟩ := declare_global noFrames declared
      refine ⟨by rw [changed], fun x old bound => ?_⟩
      have other : x ≠ name := by
        rintro rfl
        simp [keeps x old bound] at free
      rw [get?_declare declared, if_neg other]
      exact keeps x old bound

end Grows
end Scope
end Scriptlet
