import Scriptlet.Proofs.Scope.Frames

/-!
# Bindings by level

A scope seen frame by frame: `binding?` is what the frame at a level binds a name to,
where level zero is the innermost frame. A declaration makes one entry at level zero,
and an update replaces one at the first level that binds the name. `Touched` is what
any number of declarations and updates can do: names come in at level zero only, and
an entry changes only where no frame further in binds its name.
-/

namespace Scriptlet.Scope

variable {α : Type} {s t u : Scope α} {name x : String} {v : α} {level : Nat}

/-- What one of some frames binds a name to. -/
def bindingIn? (frames : List (Frame α)) (level : Nat) (name : String) : Option α :=
  frames[level]?.bind (Frame.get? · name)

/-- What the frame at a level binds a name to. The innermost frame is at level zero. -/
def binding? (s : Scope α) (level : Nat) (name : String) : Option α :=
  bindingIn? s.levels level name

@[simp] theorem bindingIn?_nil (level : Nat) (x : String) :
    bindingIn? ([] : List (Frame α)) level x = none := rfl

@[simp] theorem bindingIn?_cons_zero (frame : Frame α) (rest : List (Frame α)) (x : String) :
    bindingIn? (frame :: rest) 0 x = frame.get? x := rfl

@[simp] theorem bindingIn?_cons_succ (frame : Frame α) (rest : List (Frame α)) (level : Nat)
    (x : String) : bindingIn? (frame :: rest) (level + 1) x = bindingIn? rest level x := rfl

@[simp] theorem binding?_push_zero (s : Scope α) (x : String) : s.push.binding? 0 x = none := rfl

@[simp] theorem binding?_push_succ (s : Scope α) (level : Nat) (x : String) :
    s.push.binding? (level + 1) x = s.binding? level x := rfl

theorem binding?_of_pop (popped : s.pop = .ok t) (level : Nat) (x : String) :
    t.binding? level x = s.binding? (level + 1) x := by
  obtain ⟨_ | ⟨frame, rest⟩, globals⟩ := s
  · cases popped
  · cases popped
    rfl

/-- A declaration makes an entry in the innermost frame, which had none. -/
theorem binding?_declare (declared : s.declare name v = .ok t) :
    s.binding? 0 name = none ∧
      ∀ level x, t.binding? level x =
        if level = 0 ∧ x = name then some v else s.binding? level x := by
  obtain ⟨free, rfl⟩ := declare_eq_ok_iff.mp declared
  obtain ⟨_ | ⟨frame, rest⟩, globals⟩ := s
  · refine ⟨free, fun level x => ?_⟩
    cases level <;> simp [binding?, levels, bindTop]
  · refine ⟨free, fun level x => ?_⟩
    cases level <;> simp [binding?, levels, bindTop]

theorem declare_ne_noFrame : s.declare name v ≠ .error .noFrame := by
  unfold declare
  split <;> split <;> nofun

theorem update_ne_noFrame : s.update name v ≠ .error .noFrame := by
  unfold update
  split
  · nofun
  · split <;> nofun

/-- Where some frame binds a name, its first entry is replaced and nothing else. -/
theorem bindingIn?_setInnermost {frames : List (Frame α)}
    (bound : ∃ frame ∈ frames, (Frame.get? frame name).isSome) (v : α) :
    ∃ first, (bindingIn? frames first name).isSome ∧
      (∀ inner < first, bindingIn? frames inner name = none) ∧
      ∀ level x, bindingIn? (setInnermost name v frames) level x =
        if level = first ∧ x = name then some v else bindingIn? frames level x := by
  induction frames with
  | nil => simp at bound
  | cons frame rest ih =>
      by_cases here : (Frame.get? frame name).isSome
      · refine ⟨0, here, nofun, fun level x => ?_⟩
        rw [setInnermost, if_pos here]
        cases level with
        | zero => simp [Frame.get?_set here]
        | succ level => simp
      · obtain ⟨frame', member, found⟩ := bound
        have inRest : frame' ∈ rest := by
          rcases List.mem_cons.mp member with rfl | inRest
          · exact absurd found here
          · exact inRest
        obtain ⟨first, isBound, free, replaced⟩ := ih ⟨frame', inRest, found⟩
        refine ⟨first + 1, isBound, fun inner below => ?_, fun level x => ?_⟩
        · cases inner with
          | zero => simpa using here
          | succ inner => exact free inner (Nat.lt_of_succ_lt_succ below)
        · rw [setInnermost, if_neg here]
          cases level with
          | zero => simp
          | succ level => simpa using replaced level x

/-- An update replaces an entry where the name is first bound, over all frames. -/
theorem levels_update (updated : s.update name v = .ok t) :
    (∃ frame ∈ s.levels, (Frame.get? frame name).isSome) ∧
      t.levels = setInnermost name v s.levels := by
  have split (frames : List (Frame α)) (globals : Frame α) :
      setInnermost name v (frames ++ [globals]) =
        if frames.any fun frame => (frame.get? name).isSome then
          setInnermost name v frames ++ [globals]
        else frames ++ setInnermost name v [globals] := by
    induction frames with
    | nil => simp
    | cons frame rest ih =>
        by_cases here : (Frame.get? frame name).isSome
        · simp [setInnermost, here]
        · simp only [List.cons_append, setInnermost, here, Bool.false_eq_true, if_false, ih,
            List.any_cons, Bool.false_or]
          split <;> rfl
  obtain ⟨frames, globals⟩ := s
  unfold update at updated
  simp only [levels, split]
  by_cases pushed : (frames.any fun frame => (frame.get? name).isSome) = true
  · rw [if_pos pushed] at updated ⊢
    cases updated
    obtain ⟨frame, member, bound⟩ := List.any_eq_true.mp pushed
    exact ⟨⟨frame, List.mem_append_left _ member, bound⟩, rfl⟩
  · rw [if_neg pushed] at updated ⊢
    by_cases global : (Frame.get? globals name).isSome
    · rw [if_pos global] at updated
      cases updated
      refine ⟨⟨globals, by simp, global⟩, ?_⟩
      simp [setInnermost, global]
    · rw [if_neg global] at updated
      cases updated

/-- An update replaces one entry: the innermost one of its name. -/
theorem binding?_update (updated : s.update name v = .ok t) :
    ∃ first, (s.binding? first name).isSome ∧ (∀ inner < first, s.binding? inner name = none) ∧
      ∀ level x, t.binding? level x =
        if level = first ∧ x = name then some v else s.binding? level x := by
  obtain ⟨bound, same⟩ := levels_update updated
  unfold binding?
  rw [same]
  exact bindingIn?_setInnermost bound v

/-- No frame binds other names than before. -/
def SameNames (s t : Scope α) : Prop :=
  ∀ level x, (t.binding? level x).isSome = (s.binding? level x).isSome

theorem SameNames.refl (s : Scope α) : SameNames s s := fun _ _ => rfl

theorem SameNames.update (updated : s.update name v = .ok t) : SameNames s t := by
  obtain ⟨first, bound, -, bindings⟩ := binding?_update updated
  intro level x
  rw [bindings]
  split
  · rename_i here
    obtain ⟨rfl, rfl⟩ := here
    exact bound.symm
  · rfl

/-- What declarations, and updates of some names, can do to a scope. -/
structure Touched (assigned : String → Prop) (s t : Scope α) : Prop where
  depth : t.depth = s.depth
  kept : ∀ level x, (s.binding? level x).isSome → (t.binding? level x).isSome
  gained : ∀ level x, (t.binding? level x).isSome → (s.binding? level x).isSome ∨ level = 0
  changed : ∀ level x old new, s.binding? level x = some old → t.binding? level x = some new →
    new ≠ old → assigned x ∧ ∀ inner < level, s.binding? inner x = none

namespace Touched

variable {assigned : String → Prop}

theorem refl (s : Scope α) : Touched assigned s s where
  depth := rfl
  kept _ _ bound := bound
  gained _ _ bound := .inl bound
  changed level x old new before after differ := by
    rw [before] at after
    exact absurd (Option.some.inj after).symm differ

theorem trans (first : Touched assigned s t) (second : Touched assigned t u) :
    Touched assigned s u where
  depth := second.depth.trans first.depth
  kept level x bound := second.kept level x (first.kept level x bound)
  gained level x bound := by
    rcases second.gained level x bound with bound | innermost
    · exact first.gained level x bound
    · exact .inr innermost
  changed level x old new before after differ := by
    obtain ⟨middle, between⟩ :=
      Option.isSome_iff_exists.mp (first.kept level x (Option.isSome_of_mem before))
    by_cases early : middle = old
    · -- Names stay bound, so the frames that do not bind the name now did not before.
      subst early
      obtain ⟨isAssigned, free⟩ := second.changed level x middle new between after differ
      refine ⟨isAssigned, fun inner below => ?_⟩
      cases bound : s.binding? inner x with
      | none => rfl
      | some entry =>
          have still := first.kept inner x (Option.isSome_of_mem bound)
          rw [free inner below] at still
          cases still
    · exact first.changed level x old middle before between early

theorem declare (declared : s.declare name v = .ok t) : Touched assigned s t := by
  obtain ⟨free, entries⟩ := binding?_declare declared
  refine ⟨depth_declare declared, fun level x bound => ?_, fun level x bound => ?_, ?_⟩
  · rw [entries]
    split
    · rfl
    · exact bound
  · rw [entries] at bound
    split at bound
    · rename_i here
      exact .inr here.1
    · exact .inl bound
  · intro level x old new before after differ
    rw [entries] at after
    split at after
    · rename_i here
      obtain ⟨rfl, rfl⟩ := here
      rw [free] at before
      cases before
    · rw [before] at after
      exact absurd (Option.some.inj after).symm differ

theorem update (updated : s.update name v = .ok t) (isAssigned : assigned name) :
    Touched assigned s t := by
  have same := SameNames.update updated
  obtain ⟨first, _, free, bindings⟩ := binding?_update updated
  refine ⟨depth_update updated, fun level x bound => ?_, fun level x bound => ?_, ?_⟩
  · rwa [same]
  · exact .inl (same level x ▸ bound)
  · intro level x old new before after differ
    rw [bindings] at after
    split at after
    · rename_i here
      obtain ⟨rfl, rfl⟩ := here
      exact ⟨isAssigned, free⟩
    · rw [before] at after
      exact absurd (Option.some.inj after).symm differ

/-- What was declared after a new frame goes with that frame. -/
theorem sameNames (inside : Touched assigned s.push t) (popped : t.pop = .ok u) :
    SameNames s u := by
  intro level x
  rw [binding?_of_pop popped, ← binding?_push_succ, Bool.eq_iff_iff]
  refine ⟨fun bound => ?_, inside.kept (level + 1) x⟩
  exact (inside.gained (level + 1) x bound).resolve_right (Nat.succ_ne_zero level)

theorem pop (inside : Touched assigned s.push t) (popped : t.pop = .ok u) :
    Touched assigned s u := by
  have same := inside.sameNames popped
  have depth : u.depth = s.depth := by
    obtain ⟨outer, again, level⟩ := exists_pop (Nat.succ_pos _) inside.depth
    rw [popped] at again
    cases again
    exact level
  refine ⟨depth, fun level x bound => ?_, fun level x bound => ?_, ?_⟩
  · rwa [same]
  · exact .inl (same level x ▸ bound)
  · intro level x old new before after differ
    rw [binding?_of_pop popped] at after
    obtain ⟨isAssigned, free⟩ := inside.changed (level + 1) x old new before after differ
    exact ⟨isAssigned, fun inner below => free (inner + 1) (Nat.succ_lt_succ below)⟩

end Touched
end Scriptlet.Scope
