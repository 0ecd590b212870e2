import Scriptlet.Proofs.Stmt.Printable

/-!
# Equal trees

Trees that are equal in the sense of the language have the same shape and the same
names, and numbers that are equal: what one of them contains has an equal in the
other. So the conditions on printable trees carry over, but for the sign of a zero.
-/

namespace Scriptlet

open Binary64

/-- What a number is, equal numbers are. -/
theorem kind_of_beq {x y : Float} (same : (y == x) = true) :
    x.isFinite = y.isFinite ∧ (x < 0 ↔ y < 0) := by
  obtain ⟨number, number', signed⟩ := beq_iff.mp same
  unfold signedRank at signed
  rw [isFinite_eq, isFinite_eq, decide_eq_decide, lt_zero_iff, lt_zero_iff]
  cases sign : isNegative x <;> cases sign' : isNegative y <;> simp [sign, sign'] at signed ⊢ <;>
    omega

/-- Equal expressions mention the same variables and equal numbers. -/
theorem Expr.equal_parts {e e' : Expr} (same : e'.equal e = true) :
    e'.names = e.names ∧ ∀ x ∈ e.literals, ∃ y ∈ e'.literals, (y == x) = true := by
  induction e generalizing e' with
  | num x => cases e' <;> simp_all [Expr.equal, Expr.names, Expr.literals]
  | bool b => cases e' <;> simp_all [Expr.equal, Expr.names, Expr.literals]
  | var name => cases e' <;> simp_all [Expr.equal, Expr.names, Expr.literals]
  | input ty => cases e' <;> simp_all [Expr.equal, Expr.names, Expr.literals]
  | binary op left right atLeft atRight =>
      cases e' with
      | binary op' left' right' =>
          simp only [Expr.equal, Bool.and_eq_true] at same
          obtain ⟨names, literals⟩ := atLeft same.1.2
          obtain ⟨names', literals'⟩ := atRight same.2
          refine ⟨by simp [Expr.names, names, names'], ?_⟩
          intro x member
          rcases List.mem_append.mp member with inside | inside
          · obtain ⟨y, inside, equal⟩ := literals x inside
            exact ⟨y, List.mem_append_left _ inside, equal⟩
          · obtain ⟨y, inside, equal⟩ := literals' x inside
            exact ⟨y, List.mem_append_right _ inside, equal⟩
      | _ => simp [Expr.equal] at same
  | unary op operand ih =>
      cases e' with
      | unary op' operand' =>
          simp only [Expr.equal, Bool.and_eq_true] at same
          obtain ⟨names, literals⟩ := ih same.2
          exact ⟨names, literals⟩
      | _ => simp [Expr.equal] at same

namespace Stmt

theorem exists_of_equalAll {body body' : List Stmt} (same : equalAll body' body = true) :
    ∀ s ∈ body, ∃ s' ∈ body', s'.equal s = true := by
  induction body generalizing body' with
  | nil => simp
  | cons s body ih =>
      cases body' with
      | nil => simp [equalAll] at same
      | cons s' body' =>
          simp only [equalAll, Bool.and_eq_true] at same
          refine List.forall_mem_cons.mpr ⟨⟨s', by simp, same.1⟩, fun t member => ?_⟩
          obtain ⟨t', inside, equal⟩ := ih same.2 t member
          exact ⟨t', List.mem_cons_of_mem _ inside, equal⟩

theorem exists_of_equalCases {entries entries' : List (Value × Stmt)}
    (same : equalCases entries' entries = true) :
    ∀ entry ∈ entries, ∃ entry' ∈ entries', entry'.1.equal entry.1 = true ∧
      entry'.2.equal entry.2 = true := by
  induction entries generalizing entries' with
  | nil => simp
  | cons entry entries ih =>
      cases entries' with
      | nil => simp [equalCases] at same
      | cons entry' entries' =>
          obtain ⟨label, body⟩ := entry
          obtain ⟨label', body'⟩ := entry'
          simp only [equalCases, Bool.and_eq_true] at same
          refine List.forall_mem_cons.mpr ⟨⟨(label', body'), by simp, same.1⟩, fun t member => ?_⟩
          obtain ⟨t', inside, equal⟩ := ih same.2 t member
          exact ⟨t', List.mem_cons_of_mem _ inside, equal⟩

/-- What equals a `switch` is one, with equal parts. -/
theorem switch_of_equal {s' : Stmt} {focus : Expr} {entries : List (Value × Stmt)}
    {fallback : Option Stmt} (same : s'.equal (.switch focus ⟨entries⟩ fallback) = true) :
    ∃ focus' entries' fallback', s' = .switch focus' ⟨entries'⟩ fallback' ∧
      focus'.equal focus = true ∧ equalCases entries' entries = true ∧
      equalOption fallback' fallback = true := by
  cases s' with
  | switch focus' cases' fallback' =>
      obtain ⟨entries'⟩ := cases'
      simp only [equal, Bool.and_eq_true, and_assoc] at same
      exact ⟨focus', entries', fallback', rfl, same⟩
  | _ => simp [equal] at same

theorem branch_of_equal {s' : Stmt} {condition : Expr} {onTrue : Stmt} {onFalse : Option Stmt}
    (same : s'.equal (.branch condition onTrue onFalse) = true) :
    ∃ condition' onTrue' onFalse', s' = .branch condition' onTrue' onFalse' ∧
      condition'.equal condition = true ∧ onTrue'.equal onTrue = true ∧
      equalOption onFalse' onFalse = true := by
  cases s' with
  | branch condition' onTrue' onFalse' =>
      simp only [equal, Bool.and_eq_true, and_assoc] at same
      exact ⟨condition', onTrue', onFalse', rfl, same⟩
  | _ => simp [equal] at same

theorem exists_of_equalOption {s : Stmt} {missing : Option Stmt}
    (same : equalOption missing (some s) = true) : ∃ s', missing = some s' ∧ s'.equal s = true := by
  cases missing with
  | none => simp [equalOption] at same
  | some s' => exact ⟨s', rfl, by simpa [equalOption] using same⟩

/-- The parts of equal statements are equal. -/
theorem exists_part_of_equal {s s' t : Stmt} (same : s'.equal s = true) (part : s.Part t) :
    ∃ t', s'.Part t' ∧ t'.equal t = true := by
  cases part with
  | block member =>
      cases s' <;> simp only [equal, Bool.false_eq_true] at same
      obtain ⟨t', inside, equal⟩ := exists_of_equalAll same t member
      exact ⟨t', .block inside, equal⟩
  | onTrue =>
      obtain ⟨_, onTrue', _, rfl, -, equal, -⟩ := branch_of_equal same
      exact ⟨onTrue', .onTrue, equal⟩
  | onFalse =>
      obtain ⟨_, _, _, rfl, -, -, both⟩ := branch_of_equal same
      obtain ⟨t', rfl, equal⟩ := exists_of_equalOption both
      exact ⟨t', .onFalse, equal⟩
  | body =>
      cases s' <;> simp only [equal, Bool.false_eq_true, Bool.and_eq_true] at same
      exact ⟨_, .body, same.2⟩
  | @case focus cases fallback label _ member =>
      obtain ⟨_, entries', _, rfl, -, both, -⟩ := switch_of_equal same
      obtain ⟨entry', inside, -, equal⟩ := exists_of_equalCases both _ member
      exact ⟨entry'.2, .case inside, equal⟩
  | fallback =>
      obtain ⟨_, _, _, rfl, -, -, both⟩ := switch_of_equal same
      obtain ⟨t', rfl, equal⟩ := exists_of_equalOption both
      exact ⟨t', .fallback, equal⟩

theorem exists_contained_of_equal {s s' t : Stmt} (same : s'.equal s = true)
    (inside : s.Contains t) : ∃ t', s'.Contains t' ∧ t'.equal t = true := by
  induction inside with
  | refl => exact ⟨s', .refl, same⟩
  | tail _ part ih =>
      obtain ⟨u', within, equal⟩ := ih
      obtain ⟨t', part', equal'⟩ := exists_part_of_equal equal part
      exact ⟨t', .tail within part', equal'⟩

/-- Equal statements have equal expressions directly in them and name the same
variables outside of their parts. -/
theorem own_of_equal {s s' : Stmt} (same : s'.equal s = true) :
    s'.ownNames = s.ownNames ∧ ∀ e ∈ s.exprs, ∃ e' ∈ s'.exprs, e'.equal e = true := by
  cases s with
  | declare name e | assign name e =>
      cases s' <;> simp only [equal, Bool.false_eq_true, Bool.and_eq_true, beq_iff_eq] at same
      obtain ⟨rfl, both⟩ := same
      simp [ownNames, exprs, both, (Expr.equal_parts both).1]
  | print e =>
      cases s' <;> simp only [equal, Bool.false_eq_true] at same
      simp [ownNames, exprs, same, (Expr.equal_parts same).1]
  | block body =>
      cases s' <;> simp only [equal, Bool.false_eq_true] at same
      simp [ownNames, exprs]
  | branch condition onTrue onFalse =>
      obtain ⟨_, _, _, rfl, both, -⟩ := branch_of_equal same
      simp [ownNames, exprs, both, (Expr.equal_parts both).1]
  | loop condition body =>
      cases s' <;> simp only [equal, Bool.false_eq_true, Bool.and_eq_true] at same
      simp [ownNames, exprs, same.1, (Expr.equal_parts same.1).1]
  | switch focus cases fallback =>
      obtain ⟨_, _, _, rfl, both, -⟩ := switch_of_equal same
      simp [ownNames, exprs, both, (Expr.equal_parts both).1]

theorem labels_of_equal {s s' : Stmt} (same : s'.equal s = true) :
    ∀ x, .num x ∈ s.labels → ∃ y, .num y ∈ s'.labels ∧ (y == x) = true := by
  cases s with
  | switch focus cases fallback =>
      obtain ⟨_, entries', _, rfl, -, both, -⟩ := switch_of_equal same
      intro x labelled
      obtain ⟨entry, member, label⟩ := List.mem_map.mp labelled
      obtain ⟨⟨label', body'⟩, inside, equal, -⟩ := exists_of_equalCases both entry member
      rw [label] at equal
      cases label' with
      | num y => exact ⟨y, List.mem_map.mpr ⟨_, inside, rfl⟩, equal⟩
      | bool b => simp [Value.equal] at equal
  | _ => exact fun _ labelled => absurd labelled List.not_mem_nil

theorem endsOpen_of_equal {s s' : Stmt} (same : s'.equal s = true) : s'.endsOpen = s.endsOpen := by
  induction s generalizing s' with
  | declare | assign | print | block =>
      cases s' <;> first | rfl | simp [equal] at same
  | branch condition onTrue onFalse _ atFalse =>
      obtain ⟨_, _, onFalse', rfl, -, -, both⟩ := branch_of_equal same
      cases onFalse with
      | none => cases onFalse' <;> simp [equalOption, endsOpen, endsOpenElse] at both ⊢
      | some s =>
          obtain ⟨s', rfl, equal⟩ := exists_of_equalOption both
          have ends := atFalse s rfl equal
          exact ends
  | loop condition body ih =>
      cases s' <;> simp only [equal, Bool.false_eq_true, Bool.and_eq_true] at same
      have ends := ih same.2
      exact ends
  | switch focus cases fallback =>
      obtain ⟨_, _, _, rfl, -⟩ := switch_of_equal same
      rfl

variable {s s' : Stmt}

/-- What equal statements share, equal trees share everywhere. -/
theorem Everywhere.of_equal {holds : Stmt → Prop} (all : s'.Everywhere holds)
    (same : s'.equal s = true)
    (shared : ∀ u u' : Stmt, u'.equal u = true → holds u' → holds u) : s.Everywhere holds := by
  intro u inside
  obtain ⟨u', inside', equal⟩ := exists_contained_of_equal same inside
  exact shared u u' equal (all u' inside')

theorem WellNamed.of_equal (same : s'.equal s = true) (named : s'.WellNamed) : s.WellNamed := by
  unfold WellNamed at named ⊢
  rwa [← (own_of_equal same).1]

theorem Written.of_equal (same : s'.equal s = true) (written : s'.Written) : s.Written where
  literals e own x literal := by
    obtain ⟨e', own', equal⟩ := (own_of_equal same).2 e own
    obtain ⟨y, literal', equal'⟩ := (Expr.equal_parts equal).2 x literal
    obtain ⟨finite, negative⟩ := kind_of_beq equal'
    rw [finite, negative]
    exact written.literals e' own' y literal'
  labels x labelled := by
    obtain ⟨y, labelled', equal⟩ := labels_of_equal same x labelled
    rw [(kind_of_beq equal).1]
    exact written.labels y labelled'

theorem Unambiguous.of_equal (same : s'.equal s = true) (clear : s'.Unambiguous) :
    s.Unambiguous := by
  rintro condition onTrue onFalse rfl
  obtain ⟨condition', onTrue', missing, rfl, -, atTrue, atFalse⟩ := branch_of_equal same
  obtain ⟨onFalse', rfl, -⟩ := exists_of_equalOption atFalse
  rw [← endsOpen_of_equal atTrue]
  exact clear condition' onTrue' onFalse' rfl

end Stmt
end Scriptlet
