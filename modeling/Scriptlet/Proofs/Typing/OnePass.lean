import Scriptlet.Proofs.Typing.Rules

/-!
# Inference in one pass

Inference takes an operator with two readings twice, and then reports what the second
attempt found. `Expr.inferOnce` looks at every node once, at operands before their
operator and from left to right, and notes the nodes that it has judged. The two agree
on every expression, so a reported error is that of the first node, in this order, which
is itself at fault: a variable that is not bound, or an operator whose operands have
types that it does not take.
-/

namespace Scriptlet.Expr

variable {scope : Scope Ty} {e : Expr} {ty : Ty} {err : StaticError}

/-- The nodes of an expression, operands before their operator and the left one first. -/
def postorder : Expr → List Expr
  | .num x => [.num x]
  | .bool b => [.bool b]
  | .var name => [.var name]
  | .input ty => [.input ty]
  | .unary op operand => operand.postorder ++ [.unary op operand]
  | .binary op left right => left.postorder ++ right.postorder ++ [.binary op left right]

/-- Answers with the verdict on a node, and notes that the node has been judged. -/
def judge (node : Expr) (verdict : Except StaticError Ty) : Attempt StaticError (List Expr) Ty :=
  fun judged => (verdict, judged ++ [node])

/-- The type of an expression, for which every operand is typed once and only then is
its operator judged. -/
def inferOnce (scope : Scope Ty) : Expr → Attempt StaticError (List Expr) Ty
  | .num x => judge (.num x) (.ok .num)
  | .bool b => judge (.bool b) (.ok .bool)
  | .var name => judge (.var name) <|
    match scope.get? name with
    | some ty => .ok ty
    | none => .error (.scope (.undefined name))
  | .input ty => judge (.input ty) (.ok ty)
  | .unary op operand => do
    let ty ← operand.inferOnce scope
    judge (.unary op operand) (op.typing ty)
  | .binary op left right => do
    let l ← left.inferOnce scope
    let r ← right.inferOnce scope
    judge (.binary op left right) (op.typing l r)

/-- `HasType scope e ty` says that `e` has the type `ty` by the rules of its operators. -/
inductive HasType (scope : Scope Ty) : Expr → Ty → Prop
  | num (x : Float) : HasType scope (.num x) .num
  | bool (b : Bool) : HasType scope (.bool b) .bool
  | var {name : String} {ty : Ty} : scope.get? name = some ty → HasType scope (.var name) ty
  | input (ty : Ty) : HasType scope (.input ty) ty
  | unary {op : UnaryOp} {operand : Expr} {ty result : Ty} : HasType scope operand ty →
      op.typing ty = .ok result → HasType scope (.unary op operand) result
  | binary {op : BinaryOp} {left right : Expr} {l r result : Ty} : HasType scope left l →
      HasType scope right r → op.typing l r = .ok result →
      HasType scope (.binary op left right) result

/-- `Faulty scope e err` says that the fault `err` lies with `e` itself: it is a variable
that is not bound, or its operands have types that its operator does not take. -/
inductive Faulty (scope : Scope Ty) : Expr → StaticError → Prop
  | unbound {name : String} : scope.get? name = none →
      Faulty scope (.var name) (.scope (.undefined name))
  | unary {op : UnaryOp} {operand : Expr} {ty : Ty} {err : StaticError} :
      HasType scope operand ty → op.typing ty = .error err → Faulty scope (.unary op operand) err
  | binary {op : BinaryOp} {left right : Expr} {l r : Ty} {err : StaticError} :
      HasType scope left l → HasType scope right r → op.typing l r = .error err →
      Faulty scope (.binary op left right) err

theorem HasType.infer_eq (typed : HasType scope e ty) : e.infer scope = .ok ty := by
  induction typed with
  | num x => rfl
  | bool b => rfl
  | var bound => simp [infer, Scope.lookup, bound]
  | input ty => rfl
  | unary _ rule ih => rw [infer_unary, ih]; exact rule
  | binary _ _ rule ihl ihr => rw [infer_binary, ihl, ihr]; exact rule

theorem Faulty.infer_eq (faulty : Faulty scope e err) : e.infer scope = .error err := by
  cases faulty with
  | unbound free => simp [infer, Scope.lookup, free]
  | unary typed rule => rw [infer_unary, typed.infer_eq]; exact rule
  | binary left right rule => rw [infer_binary, left.infer_eq, right.infer_eq]; exact rule

theorem HasType.not_faulty (typed : HasType scope e ty) : ¬Faulty scope e err := by
  intro faulty
  cases typed.infer_eq.symm.trans faulty.infer_eq

/-- All nodes of an expression with a type have types. -/
theorem HasType.nodes (typed : HasType scope e ty) :
    ∀ node ∈ e.postorder, ∃ ty, HasType scope node ty := by
  induction typed with
  | num x => exact List.forall_mem_singleton.mpr ⟨_, .num x⟩
  | bool b => exact List.forall_mem_singleton.mpr ⟨_, .bool b⟩
  | var bound => exact List.forall_mem_singleton.mpr ⟨_, .var bound⟩
  | input ty => exact List.forall_mem_singleton.mpr ⟨_, .input ty⟩
  | unary operand rule ih =>
      exact List.forall_mem_append.mpr ⟨ih, List.forall_mem_singleton.mpr ⟨_, .unary operand rule⟩⟩
  | binary left right rule ihl ihr =>
      refine List.forall_mem_append.mpr ⟨List.forall_mem_append.mpr ⟨ihl, ihr⟩, ?_⟩
      exact List.forall_mem_singleton.mpr ⟨_, .binary left right rule⟩

/-- The first node at fault: `err` lies with `node`, and the nodes `before` it have types. -/
structure FirstFault (scope : Scope Ty) (e : Expr) (before : List Expr) (node : Expr)
    (err : StaticError) : Prop where
  place : ∃ behind, e.postorder = before ++ node :: behind
  typed : ∀ earlier ∈ before, ∃ ty, HasType scope earlier ty
  faulty : Faulty scope node err

/-- The first fault of an operand is that of the expression, if what comes before the
operand has types. -/
theorem FirstFault.extend {operand node : Expr} {before : List Expr}
    (first : FirstFault scope operand before node err) (front back : List Expr)
    (around : e.postorder = front ++ operand.postorder ++ back)
    (typed : ∀ earlier ∈ front, ∃ ty, HasType scope earlier ty) :
    FirstFault scope e (front ++ before) node err := by
  obtain ⟨⟨behind, place⟩, typedBefore, faulty⟩ := first
  refine ⟨⟨behind ++ back, ?_⟩, List.forall_mem_append.mpr ⟨typed, typedBefore⟩, faulty⟩
  rw [around, place]
  simp

/-- An expression that is at fault itself, while all else in it has types. -/
theorem Faulty.firstFault {operands : List Expr} (faulty : Faulty scope e err)
    (place : e.postorder = operands ++ [e])
    (typed : ∀ earlier ∈ operands, ∃ ty, HasType scope earlier ty) :
    FirstFault scope e operands e err :=
  ⟨⟨[], place⟩, typed, faulty⟩

theorem inferOnce_fst (scope : Scope Ty) (e : Expr) (judged : List Expr) :
    (e.inferOnce scope judged).1 = e.infer scope := by
  induction e generalizing judged with
  | num x => rfl
  | bool b => rfl
  | var name =>
      simp only [inferOnce, judge, infer, Scope.lookup]
      cases scope.get? name <;> rfl
  | input ty => rfl
  | unary op operand ih =>
      rw [infer_unary, inferOnce, Attempt.bind_apply, ← ih judged]
      rcases operand.inferOnce scope judged with ⟨_ | ty, after⟩ <;> rfl
  | binary op left right ihl ihr =>
      rw [infer_binary, inferOnce, Attempt.bind_apply, ← ihl judged]
      rcases left.inferOnce scope judged with ⟨_ | l, after⟩
      · rfl
      · change ((right.inferOnce scope >>= fun r => judge _ (op.typing l r)) after).1 = _
        rw [Attempt.bind_apply, ← ihr after]
        rcases right.inferOnce scope after with ⟨_ | r, after'⟩ <;> rfl

/-- One pass judges all nodes in order and finds the type, or judges them up to the first
one that is at fault. -/
theorem inferOnce_ensures (scope : Scope Ty) (e : Expr) (judged : List Expr) :
    (e.inferOnce scope).Ensures judged
      (fun ty after => HasType scope e ty ∧ after = judged ++ e.postorder)
      (fun err after => ∃ before node, FirstFault scope e before node err ∧
        after = judged ++ before ++ [node]) := by
  induction e generalizing judged with
  | num x => exact ⟨.num x, rfl⟩
  | bool b => exact ⟨.bool b, rfl⟩
  | input ty => exact ⟨.input ty, rfl⟩
  | var name =>
      unfold inferOnce
      cases bound : scope.get? name with
      | some ty => exact ⟨.var bound, rfl⟩
      | none =>
          have faulty : Faulty scope (.var name) _ := .unbound bound
          exact ⟨[], .var name, faulty.firstFault rfl nofun, by simp⟩
  | unary op operand ih =>
      rw [inferOnce, Attempt.ensures_bind]
      refine (ih judged).mono ?_ ?_
      · rintro ty after ⟨typed, rfl⟩
        cases rule : op.typing ty with
        | ok result => exact ⟨.unary typed rule, by simp [postorder]⟩
        | error err =>
            have faulty : Faulty scope (.unary op operand) err := .unary typed rule
            exact ⟨operand.postorder, _, faulty.firstFault rfl typed.nodes, rfl⟩
      · rintro err after ⟨before, node, first, rfl⟩
        exact ⟨before, node, first.extend [] [.unary op operand] rfl nofun, rfl⟩
  | binary op left right ihl ihr =>
      rw [inferOnce, Attempt.ensures_bind]
      refine (ihl judged).mono ?_ ?_
      · rintro l after ⟨typedLeft, rfl⟩
        rw [Attempt.ensures_bind]
        refine (ihr _).mono ?_ ?_
        · rintro r after ⟨typedRight, rfl⟩
          cases rule : op.typing l r with
          | ok result => exact ⟨.binary typedLeft typedRight rule, by simp [postorder]⟩
          | error err =>
              have faulty : Faulty scope (.binary op left right) err :=
                .binary typedLeft typedRight rule
              have typed := List.forall_mem_append.mpr ⟨typedLeft.nodes, typedRight.nodes⟩
              exact ⟨_, _, faulty.firstFault rfl typed, by simp⟩
        · rintro err after ⟨before, node, first, rfl⟩
          exact ⟨left.postorder ++ before, node, first.extend _ _ rfl typedLeft.nodes, by simp⟩
      · rintro err after ⟨before, node, first, rfl⟩
        have around : (Expr.binary op left right).postorder =
            [] ++ left.postorder ++ (right.postorder ++ [.binary op left right]) := by
          simp [postorder]
        exact ⟨before, node, first.extend _ _ around nofun, rfl⟩

open Classical in
/-- A search for nodes at fault stops at the first one. -/
theorem find?_faulty {nodes before behind : List Expr} {node : Expr}
    (place : nodes = before ++ node :: behind)
    (clean : ∀ earlier ∈ before, ∀ other, ¬Faulty scope earlier other)
    (faulty : Faulty scope node err) :
    nodes.find? (fun node => ∃ err, Faulty scope node err) = some node := by
  refine List.find?_eq_some_iff_append.mpr ⟨decide_eq_true ⟨err, faulty⟩, before, behind, place, ?_⟩
  intro earlier member
  rw [Bool.not_eq_true', decide_eq_false_iff_not]
  rintro ⟨other, faulty⟩
  exact clean earlier member other faulty

/-- Inference finds what one pass over the nodes finds, with the same error. The pass
judges every node once and in order, as far as it comes. An error is that of the first
node which is unbound or does not take the types of its operands. -/
theorem infer_eq_inferOnce (scope : Scope Ty) (e : Expr) :
    e.infer scope = (e.inferOnce scope []).1 ∧
    (e.inferOnce scope []).2 <+: e.postorder ∧
    (∀ ty, e.infer scope = .ok ty → (e.inferOnce scope []).2 = e.postorder) ∧
    ∀ err, e.infer scope = .error err ↔
      ∃ before node behind, e.postorder = before ++ node :: behind ∧
        (∀ earlier ∈ before, ∀ other, ¬Faulty scope earlier other) ∧ Faulty scope node err := by
  have result : (e.inferOnce scope []).1 = e.infer scope := inferOnce_fst scope e []
  have run := inferOnce_ensures scope e []
  unfold Attempt.Ensures at run
  generalize e.inferOnce scope [] = outcome at run result ⊢
  obtain ⟨verdict, judged⟩ := outcome
  cases verdict with
  | ok ty =>
      obtain ⟨typed, rfl⟩ := run
      dsimp only at result ⊢
      rw [← result]
      refine ⟨rfl, List.prefix_rfl, fun _ _ => rfl, fun err => ?_⟩
      refine iff_of_false nofun ?_
      rintro ⟨before, node, behind, place, -, faulty⟩
      obtain ⟨ty, nodeTyped⟩ := typed.nodes node (by simp [place])
      exact nodeTyped.not_faulty faulty
  | error err =>
      obtain ⟨before, node, ⟨⟨behind, place⟩, typed, faulty⟩, rfl⟩ := run
      have clean : ∀ earlier ∈ before, ∀ other, ¬Faulty scope earlier other := by
        intro earlier member other
        obtain ⟨ty, earlierTyped⟩ := typed earlier member
        exact earlierTyped.not_faulty
      dsimp only at result ⊢
      rw [← result]
      refine ⟨rfl, ⟨behind, by simp [place]⟩, nofun, fun err' => ?_⟩
      constructor
      · rintro ⟨⟩
        exact ⟨before, node, behind, place, clean, faulty⟩
      · rintro ⟨before', node', behind', place', clean', faulty'⟩
        have sameNode : node = node' :=
          Option.some.inj ((find?_faulty place clean faulty).symm.trans
            (find?_faulty place' clean' faulty'))
        subst sameNode
        exact faulty.infer_eq.symm.trans faulty'.infer_eq

end Scriptlet.Expr
