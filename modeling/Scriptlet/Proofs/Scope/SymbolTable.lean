import Mathlib.Logic.Function.Basic
import Scriptlet.Attempt
import Scriptlet.Proofs.Scope.Bindings

/-!
# Scopes as symbol tables

A symbol table keeps one stack of entries for each name, each entry with the depth at
which it was declared. A scope keeps one table for each frame instead, and the global
frame apart from the others. `Scope.table` reads off what the frames hold for each name,
and with it every operation of a scope is the operation of the symbol table. So the two
answer every sequence of requests alike.
-/

namespace Scriptlet

/-- The present depth and, for each name, its entries with their depths, innermost
first. -/
structure SymbolTable (α : Type) where
  depth : Nat
  stack : String → List (Nat × α)

namespace SymbolTable

variable {α : Type}

/-- No entries, at the depth of the global names. -/
def empty : SymbolTable α := ⟨1, fun _ => []⟩

def push (t : SymbolTable α) : SymbolTable α := { t with depth := t.depth + 1 }

/-- Drops all entries of the present depth, unless it is that of the global names. -/
def pop (t : SymbolTable α) : Except ScopeError (SymbolTable α) :=
  if t.depth = 1 then .error .noFrame
  else .ok ⟨t.depth - 1, fun name => (t.stack name).filter (·.1 ≠ t.depth)⟩

/-- The top entry of a name. -/
def lookup (t : SymbolTable α) (name : String) : Except ScopeError α :=
  match t.stack name with
  | [] => .error (.undefined name)
  | (_, entry) :: _ => .ok entry

/-- Puts an entry of the present depth on top, where there must not be one already. -/
def declare (t : SymbolTable α) (name : String) (entry : α) :
    Except ScopeError (SymbolTable α) :=
  if (t.stack name).head?.map Prod.fst = some t.depth then .error (.duplicate name)
  else .ok { t with stack := Function.update t.stack name ((t.depth, entry) :: t.stack name) }

/-- Gives the top entry of a name, which must have one, another value. -/
def update (t : SymbolTable α) (name : String) (entry : α) :
    Except ScopeError (SymbolTable α) :=
  match t.stack name with
  | [] => .error (.undeclared name)
  | (depth, _) :: rest =>
    .ok { t with stack := Function.update t.stack name ((depth, entry) :: rest) }

end SymbolTable

/-- What can be asked of the names in scope. -/
inductive ScopeRequest (α : Type) where
  | push
  | pop
  | declare (name : String) (entry : α)
  | update (name : String) (entry : α)
  | lookup (name : String)

/-- The operations on names in nested frames, over some representation `σ`. -/
structure ScopeOps (σ α : Type) where
  push : σ → σ
  pop : σ → Except ScopeError σ
  declare : σ → String → α → Except ScopeError σ
  update : σ → String → α → Except ScopeError σ
  lookup : σ → String → Except ScopeError α

def Scope.ops {α : Type} : ScopeOps (Scope α) α where
  push := push
  pop := pop
  declare := declare
  update := update
  lookup := lookup

def SymbolTable.ops {α : Type} : ScopeOps (SymbolTable α) α where
  push := push
  pop := pop
  declare := declare
  update := update
  lookup := lookup

namespace ScopeOps

variable {σ α : Type}

/-- Makes a change, or leaves the state alone if it cannot be made. -/
def settle (f : σ → Except ScopeError σ) : Attempt ScopeError σ (Option α) := do
  Attempt.advance f
  return none

/-- Answers a request, with an entry if one was asked for. -/
def answer (ops : ScopeOps σ α) : ScopeRequest α → Attempt ScopeError σ (Option α)
  | .push => settle fun s => .ok (ops.push s)
  | .pop => settle ops.pop
  | .declare name entry => settle fun s => ops.declare s name entry
  | .update name entry => settle fun s => ops.update s name entry
  | .lookup name => .query fun s => (ops.lookup s name).map some

/-- Answers requests one after the other, whatever became of those before. -/
def answers (ops : ScopeOps σ α) :
    List (ScopeRequest α) → σ → List (Except ScopeError (Option α)) × σ
  | [], s => ([], s)
  | request :: rest, s =>
    let (first, s') := ops.answer request s
    let (others, s'') := ops.answers rest s'
    (first :: others, s'')

theorem settle_of_ok {f : σ → Except ScopeError σ} {s t : σ} (changed : f s = .ok t) :
    (settle f : Attempt ScopeError σ (Option α)) s = (.ok none, t) := by
  simp only [settle, Attempt.bind_apply, Attempt.advance, changed]
  rfl

theorem settle_of_error {f : σ → Except ScopeError σ} {s : σ} {e : ScopeError}
    (refused : f s = .error e) :
    (settle f : Attempt ScopeError σ (Option α)) s = (.error e, s) := by
  simp only [settle, Attempt.bind_apply, Attempt.advance, refused]

/-- A request that fails changes nothing. -/
theorem answer_of_error {ops : ScopeOps σ α} {request : ScopeRequest α} {s t : σ}
    {e : ScopeError} (failed : ops.answer request s = (.error e, t)) : t = s := by
  have settled {f : σ → Except ScopeError σ}
      (failed : (settle f : Attempt ScopeError σ (Option α)) s = (.error e, t)) : t = s := by
    cases changed : f s with
    | ok u =>
        rw [settle_of_ok changed] at failed
        cases failed
    | error e =>
        rw [settle_of_error changed] at failed
        cases failed
        rfl
  cases request with
  | push | pop | declare | update => exact settled failed
  | lookup name => exact (congrArg Prod.snd failed).symm

end ScopeOps

namespace Scope

variable {α : Type} {s t : Scope α} {name x : String} {v : α}

/-- The entries of a name in some frames, the outermost of which has depth one. -/
def stackIn (name : String) : List (Frame α) → List (Nat × α)
  | [] => []
  | frame :: rest =>
    match frame.get? name with
    | some entry => (rest.length + 1, entry) :: stackIn name rest
    | none => stackIn name rest

/-- The symbol table that a scope stands for. -/
def table (s : Scope α) : SymbolTable α := ⟨s.depth, fun name => stackIn name s.levels⟩

theorem stackIn_of_bound {frame : Frame α} (bound : frame.get? name = some v)
    (rest : List (Frame α)) :
    stackIn name (frame :: rest) = (rest.length + 1, v) :: stackIn name rest := by
  simp only [stackIn, bound]

theorem stackIn_of_free {frame : Frame α} (free : frame.get? name = none)
    (rest : List (Frame α)) : stackIn name (frame :: rest) = stackIn name rest := by
  simp only [stackIn, free]

/-- Entries of some frames are no deeper than these frames are. -/
theorem depth_le_of_mem_stackIn {frames : List (Frame α)} {entry : Nat × α}
    (member : entry ∈ stackIn name frames) : entry.1 ≤ frames.length := by
  induction frames with
  | nil => cases member
  | cons frame rest ih =>
      cases bound : frame.get? name with
      | none =>
          rw [stackIn_of_free bound] at member
          exact Nat.le_succ_of_le (ih member)
      | some v =>
          rw [stackIn_of_bound bound] at member
          rcases List.mem_cons.mp member with rfl | inRest
          · exact Nat.le_refl _
          · exact Nat.le_succ_of_le (ih inRest)

theorem head?_stackIn (name : String) (frames : List (Frame α)) :
    (stackIn name frames).head?.map Prod.snd = frames.findSome? (Frame.get? · name) := by
  induction frames with
  | nil => rfl
  | cons frame rest ih =>
      cases bound : frame.get? name with
      | none => rw [stackIn_of_free bound, ih, List.findSome?_cons, bound]
      | some v => rw [stackIn_of_bound bound, List.findSome?_cons, bound]; rfl

/-- The top entry is as deep as the innermost frame exactly if that one binds the name. -/
theorem head?_stackIn_eq_depth_iff (name : String) (frame : Frame α) (rest : List (Frame α)) :
    (stackIn name (frame :: rest)).head?.map Prod.fst = some (rest.length + 1) ↔
      (frame.get? name).isSome := by
  cases bound : frame.get? name with
  | some v => simp [stackIn_of_bound bound]
  | none =>
      rw [stackIn_of_free bound]
      simp only [Option.map_eq_some_iff, Option.isSome_none, Bool.false_eq_true, iff_false]
      rintro ⟨entry, top, same⟩
      -- What is on top then comes from a frame further out.
      have shallow := depth_le_of_mem_stackIn (List.mem_of_mem_head? top)
      omega

/-- Leaving the innermost frame drops the entries of its depth and no others. -/
theorem filter_stackIn (name : String) (frame : Frame α) (rest : List (Frame α)) :
    (stackIn name (frame :: rest)).filter (·.1 ≠ rest.length + 1) = stackIn name rest := by
  have kept : (stackIn name rest).filter (·.1 ≠ rest.length + 1) = stackIn name rest := by
    rw [List.filter_eq_self]
    intro entry member
    have shallow := depth_le_of_mem_stackIn member
    exact decide_eq_true (by omega)
  cases bound : frame.get? name with
  | none => rw [stackIn_of_free bound, kept]
  | some v => rw [stackIn_of_bound bound, List.filter_cons_of_neg (by simp), kept]

/-- A new binding of the innermost frame is an entry on top. -/
theorem stackIn_cons_bind (name x : String) (v : α) {frame : Frame α}
    (free : frame.get? name = none) (rest : List (Frame α)) :
    stackIn x (((name, v) :: frame) :: rest) =
      if x = name then (rest.length + 1, v) :: stackIn name (frame :: rest)
      else stackIn x (frame :: rest) := by
  by_cases same : x = name
  · subst same
    rw [if_pos rfl, stackIn_of_free free, stackIn_of_bound (v := v) (by simp)]
  · simp [stackIn, same]

/-- An update of the innermost binding replaces the top entry. -/
theorem stackIn_setInnermost (name x : String) (v : α) (frames : List (Frame α)) :
    stackIn x (setInnermost name v frames) =
      if x = name then (stackIn name frames).modifyHead fun top => (top.1, v)
      else stackIn x frames := by
  have length := length_setInnermost name v
  induction frames with
  | nil => simp [setInnermost, stackIn]
  | cons frame rest ih =>
      cases bound : frame.get? name with
      | none =>
          simp only [setInnermost, bound, Option.isSome_none, Bool.false_eq_true, if_false]
          by_cases same : x = name
          · subst same
            rw [if_pos rfl] at ih ⊢
            rw [stackIn_of_free bound, stackIn_of_free bound, ih]
          · rw [if_neg same] at ih ⊢
            simp only [stackIn, ih, length]
      | some old =>
          have isBound : (frame.get? name).isSome := by simp [bound]
          simp only [setInnermost, isBound, if_true]
          by_cases same : x = name
          · subst same
            rw [if_pos rfl, stackIn_of_bound bound,
              stackIn_of_bound (v := v) (by simp [Frame.get?_set isBound])]
            rfl
          · simp only [stackIn, Frame.get?_set isBound, same, if_false]

theorem stackIn_eq_nil_iff {frames : List (Frame α)} :
    stackIn name frames = [] ↔ ∀ frame ∈ frames, Frame.get? frame name = none := by
  induction frames with
  | nil => simp [stackIn]
  | cons frame rest ih =>
      cases bound : frame.get? name with
      | none => simp [stackIn_of_free bound, ih, bound]
      | some v => simp [stackIn_of_bound bound, bound]

/-- The innermost frame lies on top of the others, which a declaration leaves alone. -/
theorem exists_levels (s : Scope α) :
    ∃ below, s.levels = s.top :: below ∧ s.depth = below.length + 1 ∧
      ∀ name v, (s.bindTop name v).levels = ((name, v) :: s.top) :: below := by
  obtain ⟨_ | ⟨frame, rest⟩, globals⟩ := s
  · exact ⟨[], rfl, rfl, fun _ _ => rfl⟩
  · exact ⟨rest ++ [globals], rfl, by simp [depth], fun _ _ => rfl⟩

/-- An update fails exactly if no frame binds the name. -/
theorem update_cases (s : Scope α) (name : String) (v : α) :
    (∃ t, s.update name v = .ok t) ∨
      s.update name v = .error (.undeclared name) ∧
        ∀ frame ∈ s.levels, Frame.get? frame name = none := by
  unfold update
  split
  · exact .inl ⟨_, rfl⟩
  · rename_i pushed
    split
    · exact .inl ⟨_, rfl⟩
    · rename_i global
      refine .inr ⟨rfl, fun frame member => ?_⟩
      rcases List.mem_append.mp member with inFrames | isGlobal
      · simpa using fun bound => pushed (List.any_eq_true.mpr ⟨frame, inFrames, bound⟩)
      · rw [List.mem_singleton.mp isGlobal]
        simpa using global

theorem table_empty : (empty : Scope α).table = SymbolTable.empty := rfl

theorem table_push (s : Scope α) : s.push.table = s.table.push := rfl

theorem pop_table (s : Scope α) : s.table.pop = s.pop.map table := by
  obtain ⟨_ | ⟨frame, rest⟩, globals⟩ := s
  · rfl
  · have deep : (⟨frame :: rest, globals⟩ : Scope α).table.depth ≠ 1 := by simp [table, depth]
    have dropped (x : String) := filter_stackIn x frame (rest ++ [globals])
    rw [List.length_append] at dropped
    unfold SymbolTable.pop
    rw [if_neg deep]
    exact congrArg (fun stack => Except.ok (SymbolTable.mk (rest.length + 1) stack))
      (funext dropped)

theorem lookup_table (s : Scope α) (name : String) : s.table.lookup name = s.lookup name := by
  have top := head?_stackIn name s.levels
  unfold lookup get?
  rw [← top]
  unfold SymbolTable.lookup table
  dsimp only
  cases stackIn name s.levels with
  | nil => rfl
  | cons entry rest => rfl

theorem declare_table (s : Scope α) (name : String) (v : α) :
    s.table.declare name v = (s.declare name v).map table := by
  obtain ⟨below, levels, depth, bound⟩ := s.exists_levels
  have isTop : (s.table.stack name).head?.map Prod.fst = some s.table.depth ↔
      (s.top.get? name).isSome := by
    unfold table
    rw [levels, depth]
    exact head?_stackIn_eq_depth_iff name s.top below
  unfold SymbolTable.declare
  cases found : s.top.get? name with
  | some old =>
      rw [if_pos (isTop.mpr (by simp [found])), declare_eq_error (by simp [found])]
      rfl
  | none =>
      have declared : s.declare name v = .ok (s.bindTop name v) :=
        declare_eq_ok_iff.mpr ⟨found, rfl⟩
      rw [if_neg (by simp [isTop, found]), declared]
      have sameDepth : (s.bindTop name v).depth = s.depth := depth_declare declared
      have stack (x : String) : stackIn x (s.bindTop name v).levels =
          Function.update s.table.stack name ((s.depth, v) :: s.table.stack name) x := by
        rw [bound, stackIn_cons_bind name x v found, ← levels, ← depth, Function.update_apply]
        rfl
      simp only [Except.map, table, sameDepth, stack]

theorem update_table (s : Scope α) (name : String) (v : α) :
    s.table.update name v = (s.update name v).map table := by
  unfold SymbolTable.update
  rcases s.update_cases name v with ⟨t, updated⟩ | ⟨failed, free⟩
  · obtain ⟨⟨frame, member, isBound⟩, levels⟩ := levels_update updated
    cases top : s.table.stack name with
    | nil =>
        rw [stackIn_eq_nil_iff.mp top frame member] at isBound
        cases isBound
    | cons entry rest =>
        obtain ⟨depth, old⟩ := entry
        have stack (x : String) : stackIn x t.levels =
            Function.update s.table.stack name ((depth, v) :: rest) x := by
          rw [levels, stackIn_setInnermost, Function.update_apply, show stackIn name s.levels =
            (depth, old) :: rest from top]
          rfl
        rw [updated]
        simp only [Except.map, table, depth_update updated, stack]
  · have top : s.table.stack name = [] := stackIn_eq_nil_iff.mpr free
    rw [top, failed]
    rfl

/-- A change that the symbol table makes as well is answered alike. -/
theorem settle_table {f : Scope α → Except ScopeError (Scope α)}
    {g : SymbolTable α → Except ScopeError (SymbolTable α)} (same : g s.table = (f s).map table) :
    (ScopeOps.settle g : Attempt ScopeError _ (Option α)) s.table =
      (((ScopeOps.settle f : Attempt ScopeError _ (Option α)) s).1,
        ((ScopeOps.settle f : Attempt ScopeError _ (Option α)) s).2.table) := by
  cases changed : f s with
  | ok t =>
      rw [changed] at same
      rw [ScopeOps.settle_of_ok changed, ScopeOps.settle_of_ok same]
  | error e =>
      rw [changed] at same
      rw [ScopeOps.settle_of_error changed, ScopeOps.settle_of_error same]

/-- The answer to a request, and what it leaves behind, are those of the symbol table. -/
theorem answer_table (request : ScopeRequest α) (s : Scope α) :
    SymbolTable.ops.answer request s.table =
      ((ops.answer request s).1, (ops.answer request s).2.table) := by
  cases request with
  | push => exact settle_table (congrArg Except.ok s.table_push.symm)
  | pop => exact settle_table s.pop_table
  | declare name v => exact settle_table (s.declare_table name v)
  | update name v => exact settle_table (s.update_table name v)
  | lookup name =>
      exact congrArg (fun found => (Except.map some found, s.table)) (s.lookup_table name)

theorem answers_table (requests : List (ScopeRequest α)) (s : Scope α) :
    SymbolTable.ops.answers requests s.table =
      ((ops.answers requests s).1, (ops.answers requests s).2.table) := by
  induction requests generalizing s with
  | nil => rfl
  | cons request rest ih => simp only [ScopeOps.answers, answer_table, ih]

/-- From the start on, a scope answers every sequence of requests as a symbol table does,
and stands for the table that these requests lead to. After any sequence, a request that
fails changes nothing, and taking a frame away is refused exactly if none was pushed. -/
theorem answers_as_symbolTable (requests : List (ScopeRequest α)) :
    (ops.answers requests empty).1 = (SymbolTable.ops.answers requests .empty).1 ∧
    (ops.answers requests empty).2.table = (SymbolTable.ops.answers requests .empty).2 ∧
    (∀ request e t, ops.answer request (ops.answers requests empty).2 = (.error e, t) →
      t = (ops.answers requests empty).2) ∧
    ((ops.answers requests empty).2.frames = [] ↔
      ops.answer .pop (ops.answers requests empty).2 =
        (.error .noFrame, (ops.answers requests empty).2)) := by
  have run := answers_table requests (empty : Scope α)
  rw [table_empty] at run
  generalize ops.answers requests (empty : Scope α) = outcome at run ⊢
  obtain ⟨results, s⟩ := outcome
  rw [run]
  refine ⟨rfl, rfl, fun _ _ _ failed => ScopeOps.answer_of_error failed, ?_⟩
  obtain ⟨_ | ⟨frame, rest⟩, globals⟩ := s
  · exact iff_of_true rfl rfl
  · exact iff_of_false nofun nofun

/-- A global number hidden by a truth value, which is updated and given up again. -/
example :
    ((ops : ScopeOps (Scope Value) Value).answers
      [.declare "x" (.bool true), .push, .declare "x" (.bool false), .declare "x" (.bool true),
        .update "x" (.bool true), .lookup "x", .pop, .pop, .lookup "x", .lookup "y"] empty).1 =
      [.ok none, .ok none, .ok none, .error (.duplicate "x"), .ok none, .ok (some (.bool true)),
        .ok none, .error .noFrame, .ok (some (.bool true)), .error (.undefined "y")] := by
  rfl

end Scope
end Scriptlet
