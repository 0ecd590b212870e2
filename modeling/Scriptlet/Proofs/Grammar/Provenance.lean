import Scriptlet.Proofs.Grammar.Acceptance
import Scriptlet.Proofs.Stmt.Printable

/-!
# Where the parts of a program come from

Every name of a tree that the parser gives is the text of an identifier among the
tokens, and every number is what a number token says, with its sign changed for some
labels. The tree besides is unambiguous, and its cases come from insertions.
-/

namespace Scriptlet

/-- The number that a token writes. -/
def Token.Says (t : Token) (x : Float) : Prop :=
  t.kind = .number ∧ Decimal.read? t.text.toList = some x

/-- The names and the literals of an expression stand among these tokens. -/
structure Expr.DrawnFrom (tokens : List Token) (e : Expr) : Prop where
  names : ∀ name ∈ e.names, ∃ t ∈ tokens, t.kind = .identifier ∧ t.text = name
  literals : ∀ x ∈ e.literals, ∃ t ∈ tokens, t.Says x

/-- So do the names and the numbers of a statement outside of its parts. -/
structure Stmt.DrawnFrom (tokens : List Token) (s : Stmt) : Prop where
  names : ∀ name ∈ s.ownNames, ∃ t ∈ tokens, t.kind = .identifier ∧ t.text = name
  literals : ∀ e ∈ s.exprs, ∀ x ∈ e.literals, ∃ t ∈ tokens, t.Says x
  labels : ∀ x, .num x ∈ s.labels → ∃ t ∈ tokens, t.Says x ∨ ∃ y, t.Says y ∧ x = -y
  unambiguous : s.Unambiguous
  keyed : s.Keyed

theorem Stmt.drawnFrom_block (tokens : List Token) (body : List Stmt) :
    (Stmt.block body).DrawnFrom tokens where
  names := List.forall_mem_nil _
  literals := List.forall_mem_nil _
  labels _ labelled := absurd labelled List.not_mem_nil
  unambiguous := by intro _ _ _ same; cases same
  keyed := by intro _ _ _ same; cases same

namespace Grammar

open Cursor (Passes)
open Scriptlet.Parser

/-- The parsers of expressions of a grammar draw from the tokens ahead, and from what
the operand before them was drawn from. -/
structure Draws (g : Grammar) : Prop where
  expr : ∀ power c e d tokens, g.expr power c = (.ok e, d) → c.ahead ⊆ tokens →
    e.DrawnFrom tokens
  operators : ∀ power left c e d tokens, g.operators power left c = (.ok e, d) →
    left.DrawnFrom tokens → c.ahead ⊆ tokens → e.DrawnFrom tokens

variable {g g' : Grammar} {c d : Cursor} {e : Expr} {tokens : List Token} {depth : Nat}

theorem drawn_unary {op : UnaryOp} (operand : e.DrawnFrom tokens) :
    (Expr.unary op e).DrawnFrom tokens := ⟨operand.names, operand.literals⟩

theorem drawn_binary {op : BinaryOp} {left right : Expr} (atLeft : left.DrawnFrom tokens)
    (atRight : right.DrawnFrom tokens) : (Expr.binary op left right).DrawnFrom tokens :=
  ⟨List.forall_mem_append.mpr ⟨atLeft.names, atRight.names⟩,
    List.forall_mem_append.mpr ⟨atLeft.literals, atRight.literals⟩⟩

theorem drawn_primary (ran : primary c = (.ok e, d)) (within : c.ahead ⊆ tokens) :
    e.DrawnFrom tokens := by
  simp only [primary, kind_bind_apply] at ran
  generalize found : c.kind = k at ran
  split at ran
  · obtain ⟨x, m, read, done⟩ := Attempt.bind_eq_ok_iff.mp ran
    cases done
    have inside := within (Passes.current_mem (by simp [found]))
    refine ⟨by simp [Expr.names], ?_⟩
    simpa [Expr.literals] using ⟨c.current, inside, found, (read?_of_numeral read).1⟩
  · obtain ⟨b, m, -, done⟩ := Attempt.bind_eq_ok_iff.mp ran
    cases done
    exact ⟨by simp [Expr.names], by simp [Expr.literals]⟩
  · obtain ⟨t, m, taken, done⟩ := Attempt.bind_eq_ok_iff.mp ran
    cases done
    cases taken
    have inside := within (Passes.current_mem (by simp [found]))
    refine ⟨?_, by simp [Expr.literals]⟩
    simpa [Expr.names] using ⟨c.current, inside, found, rfl⟩
  · simp [refuse] at ran

theorem drawn_inputRead (ran : inputRead c = (.ok e, d)) : e.DrawnFrom tokens := by
  simp only [inputRead, Attempt.bind_eq_ok_iff] at ran
  obtain ⟨_, _, -, _, _, -, ty, _, -, _, _, -, done⟩ := ran
  cases done
  exact ⟨by simp [Expr.names], by simp [Expr.literals]⟩

section

variable (draws : g.Draws)
include draws

theorem drawn_operand (ran : g.operand c = (.ok e, d)) (within : c.ahead ⊆ tokens) :
    e.DrawnFrom tokens := by
  have behind : c.advance.ahead ⊆ tokens := fun t inside => within (List.mem_of_mem_tail inside)
  have atUnary (ran : g.unary c = (.ok e, d)) : e.DrawnFrom tokens := by
    simp only [unary, kind_bind_apply] at ran
    generalize c.kind.unaryOp? = found at ran
    cases found with
    | none => simp [refuse] at ran
    | some op =>
        simp only [Attempt.bind_eq_ok_iff] at ran
        obtain ⟨_, _, taken, operand, m, read, done⟩ := ran
        cases taken
        cases done
        exact drawn_unary (draws.expr _ _ _ _ tokens read behind)
  simp only [operand, kind_bind_apply] at ran
  generalize c.kind = k at ran
  split at ran
  · exact drawn_primary ran within
  · exact drawn_primary ran within
  · exact drawn_primary ran within
  · exact drawn_inputRead ran
  · exact atUnary ran
  · exact atUnary ran
  · simp only [grouping, Attempt.bind_eq_ok_iff] at ran
    obtain ⟨_, _, taken, inner, m, read, _, _, -, done⟩ := ran
    cases taken
    cases done
    exact draws.expr _ _ _ _ tokens read behind
  · simp [refuse] at ran

theorem drawn_operator {left : Expr} {power : Power} (ran : g.binary left power c = (.ok e, d))
    (before : left.DrawnFrom tokens) (within : c.ahead ⊆ tokens) : e.DrawnFrom tokens := by
  simp only [binary, kind_bind_apply] at ran
  generalize c.kind.binaryOp? = found at ran
  cases found with
  | none => simp [refuse] at ran
  | some op =>
      simp only [Attempt.bind_eq_ok_iff] at ran
      obtain ⟨_, _, taken, right, m, read, done⟩ := ran
      cases taken
      cases done
      refine drawn_binary before (draws.expr _ _ _ _ tokens read ?_)
      exact fun t inside => within (List.mem_of_mem_tail inside)

/-- A grammar that draws does so one level deeper. -/
theorem Draws.extend (leads : g.Leads depth g') : g.extend.Draws where
  expr power c e d tokens ran within := by
    obtain ⟨left, m, read, rest⟩ := Attempt.bind_eq_ok_iff.mp ran
    have takes : Takes (depth + 1) Anywhere TokenKind.SameStop g.operand g'.operand :=
      takes_operand leads
    obtain ⟨seg, passes⟩ := takes.moves.passes trivial read
    refine draws.operators power left m e d tokens rest (drawn_operand draws read within) ?_
    exact List.Subset.trans passes.subset within
  operators power left c e d tokens ran before within := by
    change operatorsForm g power left c = (.ok e, d) at ran
    simp only [operatorsForm, kind_bind_apply] at ran
    generalize c.kind.power? = found at ran
    cases found with
    | none =>
        cases ran
        exact before
    | some next =>
        dsimp only at ran
        split at ran
        · obtain ⟨e', m, read, rest⟩ := Attempt.bind_eq_ok_iff.mp ran
          have takes : Takes (depth + 1) Anywhere TokenKind.SameStop (g.binary left (rightPower next))
              (g'.binary left (rightPower next)) := takes_binary leads left _
          obtain ⟨seg, passes⟩ := takes.moves.passes trivial read
          refine draws.operators power e' m e d tokens rest
            (drawn_operator draws read before within) ?_
          exact List.Subset.trans passes.subset within
        · cases ran
          exact before

end

theorem draws_nested (n : Nat) : (nested n).Draws := by
  induction n with
  | zero =>
      exact ⟨fun _ _ _ _ _ ran => by simp [nested, empty, Nat.repeat, refuse] at ran,
        fun _ _ _ _ _ _ ran => by simp [nested, empty, Nat.repeat, refuse] at ran⟩
  | succ n ih => exact ih.extend (leads_nested n 0)

theorem drawn_wholeExpr? {seg : List Token} (whole : wholeExpr? seg = some e) (within : seg ⊆ tokens) :
    e.DrawnFrom tokens := by
  obtain ⟨d, ran, -⟩ := wholeExpr?_eq_some_iff.mp whole
  refine (draws_nested ((Cursor.ofTokens seg).ahead.length + 1)).expr .lowest _ e d tokens ran
    (List.Subset.trans ?_ within)
  rcases Cursor.ofTokens_cases seg with split | same
  · conv_rhs => rw [← split]
    exact List.subset_append_left _ _
  · rw [same]
    exact List.Subset.refl _

theorem WritesHead.drawn {k : TokenKind} {seg : List Token} (head : WritesHead k seg e)
    (within : seg ⊆ tokens) : e.DrawnFrom tokens := by
  obtain ⟨-, -, whole, -⟩ := head
  exact drawn_wholeExpr? whole fun t inside => within (by simp [inside])

theorem WritesLabel.drawn {seg : List Token} {x : Float} (label : WritesLabel seg (.num x))
    (within : seg ⊆ tokens) : ∃ t ∈ tokens, t.Says x ∨ ∃ y, t.Says y ∧ x = -y := by
  cases label with
  | number isNumber read => exact ⟨_, within (by simp), .inl ⟨isNumber, read⟩⟩
  | negative _ isNumber read => exact ⟨_, within (by simp), .inr ⟨_, ⟨isNumber, read⟩, rfl⟩⟩

mutual

/-- A written statement, with all that it contains, is drawn from its tokens. -/
theorem Writes.drawn {seg : List Token} {s : Stmt} (written : Writes seg s)
    (within : seg ⊆ tokens) : s.Everywhere (Stmt.DrawnFrom tokens) := by
  rw [Stmt.everywhere_iff]
  match written with
  | @Writes.declare _ name _ _ value e _ isName _ whole _ =>
      have drawn : e.DrawnFrom tokens :=
        drawn_wholeExpr? whole fun t inside => within (by simp [inside])
      refine ⟨⟨?_, ?_, nofun, nofun, nofun⟩, nofun⟩
      · exact List.forall_mem_cons.mpr ⟨⟨name, within (by simp), isName, rfl⟩, drawn.names⟩
      · simpa [Stmt.exprs] using drawn.literals
  | @Writes.assign name _ _ value e isName _ whole _ =>
      have drawn : e.DrawnFrom tokens :=
        drawn_wholeExpr? whole fun t inside => within (by simp [inside])
      refine ⟨⟨?_, ?_, nofun, nofun, nofun⟩, nofun⟩
      · exact List.forall_mem_cons.mpr ⟨⟨name, within (by simp), isName, rfl⟩, drawn.names⟩
      · simpa [Stmt.exprs] using drawn.literals
  | @Writes.print _ _ value e _ whole _ =>
      have drawn : e.DrawnFrom tokens :=
        drawn_wholeExpr? whole fun t inside => within (by simp [inside])
      exact ⟨⟨drawn.names, by simpa [Stmt.exprs] using drawn.literals, nofun, nofun, nofun⟩, nofun⟩
  | .block _ body _ =>
      refine ⟨Stmt.drawnFrom_block tokens _, fun t part => ?_⟩
      cases part with
      | block member => exact body.drawn (fun t inside => within (by simp [inside])) t member
  | .conditional head yes =>
      have drawn := head.drawn fun t inside => within (List.mem_append_left _ inside)
      refine ⟨⟨drawn.names, by simpa [Stmt.exprs] using drawn.literals, nofun, nofun, nofun⟩, ?_⟩
      intro t part
      cases part with
      | onTrue => exact yes.drawn fun t inside => within (List.mem_append_right _ inside)
  | .alternative head yes shut _ no =>
      have drawn := head.drawn fun t inside => within (List.mem_append_left _ inside)
      refine ⟨⟨drawn.names, by simpa [Stmt.exprs] using drawn.literals, nofun, ?_, nofun⟩, ?_⟩
      · rintro _ _ _ ⟨⟩
        exact shut
      · intro t part
        cases part with
        | onTrue => exact yes.drawn fun t inside => within (by simp [inside])
        | onFalse => exact no.drawn fun t inside => within (by simp [inside])
  | .loop head body =>
      have drawn := head.drawn fun t inside => within (List.mem_append_left _ inside)
      refine ⟨⟨drawn.names, by simpa [Stmt.exprs] using drawn.literals, nofun, nofun, nofun⟩, ?_⟩
      intro t part
      cases part with
      | body => exact body.drawn fun t inside => within (List.mem_append_right _ inside)
  | @Writes.switch _ _ _ _ _ e entries fallback head _ clauses last _ =>
      have drawn := head.drawn fun t inside => within (List.mem_append_left _ inside)
      have inCases := clauses.drawn fun t inside => within (by simp [inside])
      have inLast := last.drawn fun t inside => within (by simp [inside])
      refine ⟨⟨drawn.names, by simpa [Stmt.exprs] using drawn.literals, ?_, nofun, ?_⟩, ?_⟩
      · intro x labelled
        obtain ⟨entry, member, same⟩ := List.mem_map.mp labelled
        obtain ⟨source, inside, label⟩ := List.mem_map.mp (Cases.mem_ofList member).1
        exact (inCases source inside).1 x (label.trans same)
      · rintro _ _ _ ⟨⟩
        exact ⟨entries, rfl⟩
      · intro t part
        cases part with
        | case member =>
            obtain ⟨source, inside, rfl⟩ := List.mem_map.mp (Cases.mem_ofList member).2
            exact (inCases source inside).2
        | fallback => exact inLast _ rfl

theorem WritesAll.drawn {seg : List Token} {body : List Stmt} (written : WritesAll seg body)
    (within : seg ⊆ tokens) : ∀ s ∈ body, s.Everywhere (Stmt.DrawnFrom tokens) := by
  match written with
  | .nil => exact nofun
  | .cons first others =>
      refine List.forall_mem_cons.mpr ⟨first.drawn ?_, others.drawn ?_⟩
      · exact fun t inside => within (List.mem_append_left _ inside)
      · exact fun t inside => within (List.mem_append_right _ inside)

theorem WritesCases.drawn {seg : List Token} {entries : List (Value × Stmt)}
    (written : WritesCases seg entries) (within : seg ⊆ tokens) :
    ∀ entry ∈ entries,
      (∀ x, entry.1 = .num x → ∃ t ∈ tokens, t.Says x ∨ ∃ y, t.Says y ∧ x = -y) ∧
        entry.2.Everywhere (Stmt.DrawnFrom tokens) := by
  match written with
  | .nil => exact nofun
  | .cons _ label _ body others =>
      refine List.forall_mem_cons.mpr ⟨⟨?_, body.drawn ?_⟩, others.drawn ?_⟩
      · rintro x rfl
        exact label.drawn fun t inside => within (by simp [inside])
      · exact fun t inside => within (by simp [inside])
      · exact fun t inside => within (by simp [inside])

theorem WritesFallback.drawn {seg : List Token} {fallback : Option Stmt}
    (written : WritesFallback seg fallback) (within : seg ⊆ tokens) :
    ∀ s, fallback = some s → s.Everywhere (Stmt.DrawnFrom tokens) := by
  match written with
  | .none => exact nofun
  | .some _ _ body =>
      rintro _ ⟨⟩
      exact body.drawn fun t inside => within (by simp [inside])

end

end Grammar
end Scriptlet
