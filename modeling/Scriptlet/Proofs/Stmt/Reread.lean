import Scriptlet.Proofs.Cases
import Scriptlet.Proofs.Number.Doubles
import Scriptlet.Proofs.Stmt.Printable

/-!
# Trees as they are read back

A printed zero has lost its sign. `Stmt.reread` is a tree in which the zeros among
the literals and labels are positive: it equals the tree in the sense of the
language, labels that were different stay so, and nothing else about it differs.
-/

namespace Scriptlet

/-- A number as it is read back. -/
def rereadNumber (x : Float) : Float := if x == 0 then 0 else x

/-- A value as it is read back. -/
def Value.reread : Value → Value
  | .num x => .num (rereadNumber x)
  | .bool b => .bool b

/-- An expression as it is read back. -/
def Expr.reread : Expr → Expr
  | .num x => .num (rereadNumber x)
  | .bool b => .bool b
  | .var name => .var name
  | .input ty => .input ty
  | .binary op left right => .binary op left.reread right.reread
  | .unary op operand => .unary op operand.reread

namespace Stmt

mutual

/-- A statement as it is read back. -/
def reread : Stmt → Stmt
  | .declare name value => .declare name value.reread
  | .assign name value => .assign name value.reread
  | .print value => .print value.reread
  | .block body => .block (rereadAll body)
  | .branch condition onTrue onFalse => .branch condition.reread onTrue.reread (rereadOption onFalse)
  | .loop condition body => .loop condition.reread body.reread
  | .switch focus ⟨cases⟩ fallback =>
    .switch focus.reread ⟨rereadCases cases⟩ (rereadOption fallback)

/-- Statements as they are read back. -/
def rereadAll : List Stmt → List Stmt
  | [] => []
  | s :: rest => s.reread :: rereadAll rest

/-- A statement that may be missing, as it is read back. -/
def rereadOption : Option Stmt → Option Stmt
  | none => none
  | some s => some s.reread

/-- Cases as they are read back. -/
def rereadCases : List (Value × Stmt) → List (Value × Stmt)
  | [] => []
  | (label, body) :: rest => (label.reread, body.reread) :: rereadCases rest

end

end Stmt

open Binary64

/-- The sign of a zero apart, a number is read back as it was. -/
theorem signedRank_rereadNumber (x : Float) :
    rank (rereadNumber x) = rank x ∧
      signedRank (isNegative (rereadNumber x)) (rank (rereadNumber x)) =
        signedRank (isNegative x) (rank x) := by
  unfold rereadNumber
  split
  · rename_i zero
    rw [beq_zero_iff] at zero
    rw [zero]
    refine ⟨rfl, ?_⟩
    cases isNegative x <;> rfl
  · exact ⟨rfl, rfl⟩

theorem rereadNumber_beq_left (x y : Float) : (rereadNumber x == y) = (x == y) := by
  obtain ⟨same, signed⟩ := signedRank_rereadNumber x
  rw [Bool.eq_iff_iff, beq_iff, beq_iff, signed, same]

theorem rereadNumber_beq_right (x y : Float) : (x == rereadNumber y) = (x == y) := by
  obtain ⟨same, signed⟩ := signedRank_rereadNumber y
  rw [Bool.eq_iff_iff, beq_iff, beq_iff, signed, same]

theorem isNaN_rereadNumber (x : Float) : (rereadNumber x).isNaN = x.isNaN := by
  rw [isNaN_eq, isNaN_eq, (signedRank_rereadNumber x).1]

theorem rereadNumber_beq_self {x : Float} (finite : x.isFinite = true) :
    (rereadNumber x == x) = true := by
  rw [isFinite_eq, decide_eq_true_iff] at finite
  rw [rereadNumber_beq_left, beq_iff]
  exact ⟨finite.le, finite.le, rfl⟩

namespace Value

/-- The sign of a zero makes no other label. -/
@[simp] theorem reread_sameKey (v w : Value) : v.reread.sameKey w = v.sameKey w := by
  cases v <;> cases w <;> simp only [reread, sameKey, rereadNumber_beq_left, isNaN_rereadNumber]

@[simp] theorem sameKey_reread (v w : Value) : v.sameKey w.reread = v.sameKey w := by
  cases v <;> cases w <;> simp only [reread, sameKey, rereadNumber_beq_right, isNaN_rereadNumber]

@[simp] theorem ty_reread (v : Value) : v.reread.ty = v.ty := by
  cases v <;> rfl

end Value

theorem Expr.reread_equal {e : Expr} (finite : ∀ x ∈ e.literals, x.isFinite = true) :
    e.reread.equal e = true := by
  induction e with
  | num x => exact rereadNumber_beq_self (finite x (by simp [Expr.literals]))
  | bool b => simp [Expr.reread, Expr.equal]
  | var name => simp [Expr.reread, Expr.equal]
  | input ty => simp [Expr.reread, Expr.equal]
  | binary op left right atLeft atRight =>
      simp only [Expr.literals, List.forall_mem_append] at finite
      simp [Expr.reread, Expr.equal, atLeft finite.1, atRight finite.2]
  | unary op operand ih => simp [Expr.reread, Expr.equal, ih finite]

namespace Stmt

theorem rereadCases_eq_map (entries : List (Value × Stmt)) :
    rereadCases entries = entries.map fun entry => (entry.1.reread, entry.2.reread) := by
  induction entries with
  | nil => rfl
  | cons entry entries ih => rw [List.map_cons, ← ih, rereadCases]

theorem distinct_rereadCases {entries : List (Value × Stmt)} (distinct : Cases.Distinct entries) :
    Cases.Distinct (rereadCases entries) := by
  rw [rereadCases_eq_map, Cases.Distinct, List.pairwise_map]
  simp only [Value.reread_sameKey, Value.sameKey_reread]
  exact distinct

/-- A tree is read back open at its end exactly if it is. -/
@[simp] theorem endsOpen_reread (s : Stmt) : s.reread.endsOpen = s.endsOpen := by
  induction s with
  | declare | assign | print | block => rfl
  | branch condition onTrue onFalse _ atFalse =>
      cases onFalse with
      | none => rfl
      | some s => exact atFalse s rfl
  | loop condition body ih => exact ih
  | switch focus cases fallback => rfl

private theorem equalAll_reread {body : List Stmt}
    (each : ∀ s ∈ body, s.reread.equal s = true) : equalAll (rereadAll body) body = true := by
  induction body with
  | nil => simp [rereadAll, equalAll]
  | cons s body ih =>
      simp only [List.forall_mem_cons] at each
      simp [rereadAll, equalAll, each.1, ih each.2]

private theorem equalOption_reread {s : Option Stmt}
    (each : ∀ t, s = some t → t.reread.equal t = true) :
    equalOption (rereadOption s) s = true := by
  cases s with
  | none => simp [rereadOption, equalOption]
  | some t => simp [rereadOption, equalOption, each]

private theorem equalCases_reread {entries : List (Value × Stmt)}
    (labels : ∀ x, .num x ∈ entries.map Prod.fst → x.isFinite = true)
    (each : ∀ entry ∈ entries, entry.2.reread.equal entry.2 = true) :
    equalCases (rereadCases entries) entries = true := by
  induction entries with
  | nil => simp [rereadCases, equalCases]
  | cons entry entries ih =>
      obtain ⟨label, body⟩ := entry
      simp only [List.forall_mem_cons] at each
      have first : label.reread.equal label = true := by
        cases label with
        | num x => exact rereadNumber_beq_self (labels x (by simp))
        | bool b => simp [Value.reread, Value.equal]
      have rest := ih (fun x member => labels x (List.mem_cons_of_mem _ member)) each.2
      simp [rereadCases, equalCases, first, each.1, rest]

/-- A tree with finite numbers equals what is read back. -/
theorem reread_equal {t : Stmt} (written : t.Everywhere Written) : t.reread.equal t = true := by
  have value {s : Stmt} {e : Expr} (written : s.Everywhere Written) (own : e ∈ s.exprs) :
      e.reread.equal e = true :=
    Expr.reread_equal fun x member => (written.here.literals e own x member).1
  induction t with
  | declare name e => simp [reread, equal, value written (e := e) (by simp [exprs])]
  | assign name e => simp [reread, equal, value written (e := e) (by simp [exprs])]
  | print e => simp [reread, equal, value written (e := e) (by simp [exprs])]
  | block body ih =>
      rw [reread, equal]
      exact equalAll_reread fun s member => ih s member (written.part (.block member))
  | branch condition onTrue onFalse atTrue atFalse =>
      have inFalse : equalOption (rereadOption onFalse) onFalse = true := by
        refine equalOption_reread ?_
        rintro s rfl
        exact atFalse s rfl (written.part .onFalse)
      simp [reread, equal, value written (e := condition) (by simp [exprs]),
        atTrue (written.part .onTrue), inFalse]
  | loop condition body ih =>
      simp [reread, equal, value written (e := condition) (by simp [exprs]), ih (written.part .body)]
  | switch focus cases fallback atCases atFallback =>
      obtain ⟨entries⟩ := cases
      have inCases : equalCases (rereadCases entries) entries = true :=
        equalCases_reread written.here.labels fun entry member =>
          atCases entry member (written.part (.case member))
      have inFallback : equalOption (rereadOption fallback) fallback = true := by
        refine equalOption_reread ?_
        rintro s rfl
        exact atFallback s rfl (written.part .fallback)
      simp [reread, equal, value written (e := focus) (by simp [exprs]), inCases, inFallback]

end Stmt
end Scriptlet
