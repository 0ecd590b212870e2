import Scriptlet.Proofs.Grammar.Acceptance

/-!
# The steps of reading an expression

An expression is an operand and a loop over the operators behind it. `Power.StopsAt` says
where the loop ends. The other steps are stated over the tokens that they pass: an
operator before its operand, and one between two operands, each read exactly if an
expression is read behind it in the context of its power.
-/

namespace Scriptlet

open Cursor (Passes)
open Scriptlet.Parser

namespace Power

/-- An expression in a context of some power ends before a token of this kind: it is no
operator between two operands, or one that does not bind tighter. -/
def StopsAt (p : Power) (k : TokenKind) : Prop :=
  ∀ next, k.power? = some next → p.looserThan next = false

variable {p q : Power} {k : TokenKind}

theorem StopsAt.mono (stops : p.StopsAt k) (tighter : p.rank ≤ q.rank) : q.StopsAt k := by
  intro next hasPower
  have bound := stops next hasPower
  simp only [looserThan, decide_eq_false_iff_not] at bound ⊢
  omega

theorem stopsAt_of_power (hasPower : k.power? = some p) : p.StopsAt k := by
  intro next again
  cases hasPower.symm.trans again
  simp [looserThan]

theorem stopsAt_of_none (noOperator : k.power? = none) : p.StopsAt k := by
  intro next hasPower
  cases noOperator.symm.trans hasPower

end Power

namespace Grammar

variable {c c₁ d : Cursor} {t : Token} {e left right : Expr} {p q : Power}

theorem operand_of_number {x : Float} (passes : c.Passes [t] d)
    (kind : t.kind = .number) (read : Decimal.read? t.text.toList = some x) :
    full.operand c = (.ok (.num x), d) := by
  have here : c.kind = .number := passes.kind_eq.trans kind
  simp only [operand, primary, kind_bind_apply, here, Attempt.bind_ok (numeral_eq_ok passes read)]
  rfl

theorem typeName_eq_ok {ty : Ty} (passes : c.Passes [t] d)
    (isType : t.kind = .typeName ∨ t.kind = .identifier) (named : t.text = ty.name) :
    typeName c = (.ok ty, d) := by
  have step := take_eq_ok passes
  simp only [take, Prod.mk.injEq] at step
  simp only [typeName, passes.kind_eq, isType, if_true, passes.current_eq, named,
    Ty.ofName?_name, step.2]

/-- An expression that is given a form. -/
private theorem expr_bind_eq_ok_iff {form : Expr → Expr} :
    (full.expr q >>= fun a => pure (form a)) c = (.ok e, d) ↔
      ∃ a, full.expr q c = (.ok a, d) ∧ e = form a := by
  rw [Attempt.bind_eq_ok_iff]
  constructor
  · rintro ⟨a, d, read, done⟩
    cases done
    exact ⟨a, read, rfl⟩
  · rintro ⟨a, read, rfl⟩
    exact ⟨a, d, read, rfl⟩

/-- An operator before its operand is read exactly if an operand for it is. -/
theorem operand_eq_ok_iff {op : UnaryOp} (passes : c.Passes [t] c₁)
    (isSign : t.kind.unaryOp? = some op) :
    full.operand c = (.ok e, d) ↔
      ∃ inner, full.expr .unary c₁ = (.ok inner, d) ∧ e = .unary op inner := by
  have here : c.kind.unaryOp? = some op := passes.kind_eq ▸ isSign
  have signed : full.operand c = full.unary c := by
    rw [operand, kind_bind_apply]
    generalize c.kind = k at here ⊢
    cases k <;> first | rfl | cases here
  rw [signed]
  simp only [unary, kind_bind_apply, here, Attempt.bind_ok (take_eq_ok passes)]
  exact expr_bind_eq_ok_iff

theorem expr_eq_operators (read : full.operand c = (.ok e, d)) :
    full.expr p c = full.operators p e d := by
  rw [full_expr, exprForm, Attempt.bind_ok read]

theorem operators_of_stopsAt (stops : p.StopsAt d.kind) :
    full.operators p e d = (.ok e, d) := by
  rw [full_operators, operatorsForm, kind_bind_apply]
  cases hasPower : d.kind.power? with
  | none => rfl
  | some next =>
      simp only [stops next hasPower, Bool.false_eq_true, if_false]
      rfl

/-- Where an operator binds tighter, the loop takes it in with its right operand. -/
theorem operators_of_looserThan (hasPower : c.kind.power? = some q)
    (looser : p.looserThan q = true) :
    full.operators p left c = (full.binary left (rightPower q) >>= full.operators p) c := by
  rw [full_operators, operatorsForm, kind_bind_apply, hasPower]
  simp only [looser, if_true]

/-- An operator between two operands is read exactly if its right operand is. -/
theorem binary_eq_ok_iff {op : BinaryOp} (passes : c.Passes [t] c₁)
    (isOperator : t.kind.binaryOp? = some op) :
    full.binary left q c = (.ok e, d) ↔
      ∃ right, full.expr q c₁ = (.ok right, d) ∧ e = .binary op left right := by
  have here : c.kind.binaryOp? = some op := passes.kind_eq ▸ isOperator
  simp only [binary, kind_bind_apply, here, Attempt.bind_ok (take_eq_ok passes)]
  exact expr_bind_eq_ok_iff

/-- An operator that binds tighter is taken in with the operand that is read behind it. -/
theorem operators_of_operation {op : BinaryOp} (passes : c.Passes [t] c₁)
    (hasPower : t.kind.power? = some q) (isOperator : t.kind.binaryOp? = some op)
    (looser : p.looserThan q = true) (read : full.expr (rightPower q) c₁ = (.ok right, d)) :
    full.operators p left c = full.operators p (.binary op left right) d := by
  have operation : full.binary left (rightPower q) c = (.ok (.binary op left right), d) :=
    (binary_eq_ok_iff passes isOperator).mpr ⟨right, read, rfl⟩
  rw [operators_of_looserThan (passes.kind_eq ▸ hasPower) looser, Attempt.bind_ok operation]

end Grammar
end Scriptlet
