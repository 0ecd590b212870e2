import Scriptlet.Error

/-!
# Scopes

A scope is a stack of frames that bind names. The global frame lies under the
others and is never taken away. Names are looked up from the innermost frame
outward, so a frame may bind a name again and hide the outer one, but no frame
binds a name twice.
-/

namespace Scriptlet

/-- Names bound at one level. -/
abbrev Frame (α : Type) : Type := List (String × α)

namespace Frame

variable {α : Type}

/-- What a frame binds a name to. -/
def get? (frame : Frame α) (name : String) : Option α := frame.lookup name

/-- Gives a name that a frame binds another entry. -/
def set (name : String) (entry : α) : Frame α → Frame α
  | [] => []
  | (x, old) :: rest =>
    if name == x then (x, entry) :: rest else (x, old) :: set name entry rest

end Frame

/-- A stack of frames over the global one, innermost first. -/
structure Scope (α : Type) where
  frames : List (Frame α)
  globals : Frame α

namespace Scope

variable {α : Type}

/-- The global frame alone, binding nothing. -/
def empty : Scope α := ⟨[], []⟩

/-- The number of frames, with the global one. -/
def depth (s : Scope α) : Nat := s.frames.length + 1

/-- Puts an empty frame on top. -/
def push (s : Scope α) : Scope α := { s with frames := [] :: s.frames }

/-- Takes the innermost frame away, unless it is the global one. -/
def pop (s : Scope α) : Except ScopeError (Scope α) :=
  match s.frames with
  | [] => .error .noFrame
  | _ :: rest => .ok { s with frames := rest }

@[simp] theorem depth_push (s : Scope α) : s.push.depth = s.depth + 1 := rfl

/-- A new frame can be taken away again, and nothing else has changed. -/
@[simp] theorem pop_push (s : Scope α) : s.push.pop = .ok s := rfl

/-- All frames, innermost first. -/
def levels (s : Scope α) : List (Frame α) := s.frames ++ [s.globals]

/-- The innermost entry of a name. -/
def get? (s : Scope α) (name : String) : Option α := s.levels.findSome? (Frame.get? · name)

/-- The innermost entry of a name, which must have one. -/
def lookup (s : Scope α) (name : String) : Except ScopeError α :=
  match s.get? name with
  | some entry => .ok entry
  | none => .error (.undefined name)

/-- Binds a name in the innermost frame, which must not bind it already. -/
def declare (s : Scope α) (name : String) (entry : α) : Except ScopeError (Scope α) :=
  match s.frames with
  | [] =>
    if (s.globals.get? name).isSome then .error (.duplicate name)
    else .ok { s with globals := (name, entry) :: s.globals }
  | frame :: rest =>
    if (frame.get? name).isSome then .error (.duplicate name)
    else .ok { s with frames := ((name, entry) :: frame) :: rest }

/-- Gives the innermost entry of a name another value, in frames of which at
least one binds it. -/
def setInnermost (name : String) (entry : α) : List (Frame α) → List (Frame α)
  | [] => []
  | frame :: rest =>
    if (frame.get? name).isSome then frame.set name entry :: rest
    else frame :: setInnermost name entry rest

/-- Gives the innermost entry of a name another value. -/
def update (s : Scope α) (name : String) (entry : α) : Except ScopeError (Scope α) :=
  if s.frames.any fun frame => (frame.get? name).isSome then
    .ok { s with frames := setInnermost name entry s.frames }
  else if (s.globals.get? name).isSome then
    .ok { s with globals := s.globals.set name entry }
  else .error (.undeclared name)

/-- Runs a computation in a frame of its own, which is taken away afterwards
whether or not the computation succeeded. -/
def within {ρ : Type} (s : Scope α) (f : Scope α → ρ × Scope α) :
    Except ScopeError ρ × Scope α :=
  let (result, inner) := f s.push
  match inner.pop with
  | .ok outer => (.ok result, outer)
  | .error e => (.error e, inner)

end Scope
end Scriptlet
