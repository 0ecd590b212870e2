import Scriptlet.Grammar.Form

/-!
# The layers of expressions

The grammar of expressions as it is written down on paper: a layer for each group of
operators, the loosest first, with no parser and no powers in it. Six layers group to
the left. Operators before their operand come next, then `^`, whose right operand is
again one with operators before it, and last the operands that need no operator.

The powers of the parser draw the same lines. `Layer.power` is the power behind which
an expression of a layer ends, and `Layer.above?` is the layer of the expressions that
are read in a context of some power.
-/

namespace Scriptlet

/-- The layers of expressions, loosest first. -/
inductive Layer where
  | disjunction
  | conjunction
  | equality
  | relation
  | sum
  | product
  | unary
  | exponentiation
  | primary
  deriving DecidableEq

namespace Layer

/-- The next tighter layer, all of whose expressions belong to this one too. -/
def next? : Layer → Option Layer
  | .disjunction => some .conjunction
  | .conjunction => some .equality
  | .equality => some .relation
  | .relation => some .sum
  | .sum => some .product
  | .product => some .unary
  | .unary => some .exponentiation
  | .exponentiation => some .primary
  | .primary => none

/-- The operators of the layers that group to the left. -/
def operator? : Layer → TokenKind → Option BinaryOp
  | .disjunction, .or => some .or
  | .conjunction, .and => some .and
  | .equality, .equals => some .equal
  | .relation, .less => some .less
  | .sum, .plus => some .add
  | .sum, .dash => some .sub
  | .product, .star => some .mul
  | .product, .slash => some .div
  | _, _ => none

end Layer

namespace Grammar

/-- The tokens of an expression of a layer. -/
inductive Derives : Layer → List Token → Expr → Prop
  | tighter {layer next : Layer} {seg : List Token} {e : Expr} :
      layer.next? = some next → Derives next seg e → Derives layer seg e
  | operation {layer next : Layer} {t : Token} {op : BinaryOp} {seg seg' : List Token}
      {left right : Expr} :
      layer.operator? t.kind = some op → layer.next? = some next → Derives layer seg left →
      Derives next seg' right → Derives layer (seg ++ t :: seg') (.binary op left right)
  | negate {t : Token} {seg : List Token} {e : Expr} :
      t.kind = .dash → Derives .unary seg e → Derives .unary (t :: seg) (.unary .negate e)
  | not {t : Token} {seg : List Token} {e : Expr} :
      t.kind = .not → Derives .unary seg e → Derives .unary (t :: seg) (.unary .not e)
  | exponent {t : Token} {seg seg' : List Token} {left right : Expr} :
      t.kind = .caret → Derives .primary seg left → Derives .unary seg' right →
      Derives .exponentiation (seg ++ t :: seg') (.binary .pow left right)
  | number {t : Token} {x : Float} :
      t.kind = .number → Decimal.read? t.text.toList = some x → Derives .primary [t] (.num x)
  | truth {t : Token} : t.kind = .boolean → Derives .primary [t] (.bool (t.text == "true"))
  | name {t : Token} : t.kind = .identifier → Derives .primary [t] (.var t.text)
  | input {word opening t closing : Token} {ty : Ty} :
      word.kind = .inputWord → opening.kind = .less → t.kind = .typeName ∨ t.kind = .identifier →
      t.text = ty.name → closing.kind = .greater →
      Derives .primary [word, opening, t, closing] (.input ty)
  | group {opening closing : Token} {seg : List Token} {e : Expr} :
      opening.kind = .openParen → Derives .disjunction seg e → closing.kind = .closeParen →
      Derives .primary (opening :: (seg ++ [closing])) e

end Grammar

namespace Layer

/-- The place of a layer. -/
def rank : Layer → Nat
  | .disjunction => 0
  | .conjunction => 1
  | .equality => 2
  | .relation => 3
  | .sum => 4
  | .product => 5
  | .unary => 6
  | .exponentiation => 7
  | .primary => 8

/-- The power behind which an expression of a layer ends: no operator that binds tighter
may follow, or it would be part of the expression. -/
def power : Layer → Power
  | .disjunction => .or
  | .conjunction => .and
  | .equality => .equality
  | .relation => .relational
  | .sum => .additive
  | .product => .multiplicative
  | .unary | .exponentiation => .unary
  | .primary => .exponent

/-- The layer of the expressions in a context of some power. An operator before its
operand is read in every context, so the context of such an operator still has the layer
of the operators of its own kind. In tighter contexts no expression is read. -/
def above? : Power → Option Layer
  | .lowest => some .disjunction
  | .or => some .conjunction
  | .and => some .equality
  | .equality => some .relation
  | .relational => some .sum
  | .additive => some .product
  | .multiplicative | .unary => some .unary
  | .exponent | .primary => none

variable {layer next : Layer}

theorem rank_next (follows : layer.next? = some next) : next.rank = layer.rank + 1 := by
  cases layer <;> cases follows <;> rfl

theorem exists_next (inside : layer.rank < Layer.primary.rank) :
    ∃ next, layer.next? = some next := by
  cases layer
  case primary => exact absurd inside (Nat.lt_irrefl _)
  all_goals exact ⟨_, rfl⟩

theorem eq_of_rank (same : layer.rank = next.rank) : layer = next := by
  cases layer <;> cases next <;> first | rfl | cases same

theorem power_next (follows : layer.next? = some next) : layer.power.rank ≤ next.power.rank := by
  cases layer <;> cases follows <;> decide

theorem rank_power (layer : Layer) : layer.power.rank ≤ layer.rank + 1 := by
  cases layer <;> decide

/-- Only behind a primary may the tightest operators follow. -/
theorem eq_primary_of_power (tightest : Power.exponent.rank ≤ layer.power.rank) :
    layer = .primary := by
  cases layer
  case primary => rfl
  all_goals exact absurd tightest (by decide)

/-- The operators of a layer bind with its power, and their right operands are read in
the context of that power, which is the next layer. -/
theorem of_operator {k : TokenKind} {op : BinaryOp} (isOperator : layer.operator? k = some op) :
    k.power? = some layer.power ∧ k.binaryOp? = some op ∧
      Grammar.rightPower layer.power = layer.power ∧ above? layer.power = layer.next? ∧
      layer.power.rank = layer.rank + 1 ∧ layer.rank < Layer.unary.rank := by
  unfold operator? at isOperator
  split at isOperator <;> cases isOperator <;> decide

/-- Every operator is one of a layer that groups to the left, except `^`. -/
theorem exists_operator {k : TokenKind} {q : Power} (hasPower : k.power? = some q) :
    k = .caret ∧ q = .exponent ∨ ∃ layer op, operator? layer k = some op ∧ layer.power = q := by
  unfold TokenKind.power? at hasPower
  split at hasPower <;> cases hasPower
  · exact .inr ⟨.disjunction, .or, rfl, rfl⟩
  · exact .inr ⟨.conjunction, .and, rfl, rfl⟩
  · exact .inr ⟨.equality, .equal, rfl, rfl⟩
  · exact .inr ⟨.relation, .less, rfl, rfl⟩
  · exact .inr ⟨.sum, .add, rfl, rfl⟩
  · exact .inr ⟨.sum, .sub, rfl, rfl⟩
  · exact .inr ⟨.product, .mul, rfl, rfl⟩
  · exact .inr ⟨.product, .div, rfl, rfl⟩
  · exact .inl ⟨rfl, rfl⟩

theorem rank_above {p : Power} (above : above? p = some layer) :
    layer.rank ≤ Layer.unary.rank ∧ p.rank ≤ layer.power.rank ∧ p.rank ≤ Power.unary.rank := by
  cases p <;> cases above <;> decide

/-- The operators that bind tighter than a power are those of the layer above it and of
the layers that are part of it. -/
theorem looserThan_power_iff {p : Power} {k : TokenKind} {op : BinaryOp}
    (above : above? p = some next) (isOperator : layer.operator? k = some op) :
    p.looserThan layer.power = true ↔ next.rank ≤ layer.rank := by
  obtain ⟨-, -, -, -, power, bound⟩ := of_operator isOperator
  rw [Power.looserThan, decide_eq_true_iff, power]
  cases p <;> cases above <;> simp only [Power.rank, rank] at bound ⊢ <;> omega

end Layer

namespace Grammar.Derives

variable {layer layer' : Layer} {seg : List Token} {e : Expr}

/-- An expression belongs to all looser layers. -/
theorem loosen (derived : Derives layer seg e) (looser : layer'.rank ≤ layer.rank) :
    Derives layer' seg e := by
  obtain ⟨distance, apart⟩ := Nat.exists_eq_add_of_le looser
  induction distance generalizing layer' with
  | zero => exact Layer.eq_of_rank apart ▸ derived
  | succ distance ih =>
      have last : layer.rank ≤ Layer.primary.rank := by cases layer <;> decide
      obtain ⟨next, follows⟩ := Layer.exists_next (show layer'.rank < Layer.primary.rank by omega)
      have rank := Layer.rank_next follows
      exact .tighter follows (ih (by omega) (by omega))

theorem ne_nil (derived : Derives layer seg e) : seg ≠ [] := by
  induction derived with
  | tighter _ _ ih => exact ih
  | operation | exponent => exact List.append_ne_nil_of_right_ne_nil _ (List.cons_ne_nil _ _)
  | _ => exact List.cons_ne_nil _ _

/-- No token of an expression is an end of input. -/
theorem unended (derived : Derives layer seg e) : ∀ t ∈ seg, t.kind ≠ .eof := by
  induction derived with
  | tighter _ _ ih => exact ih
  | operation isOperator _ _ _ atLeft atRight =>
      refine List.forall_mem_append.mpr
        ⟨atLeft, List.forall_mem_cons.mpr ⟨fun ended => ?_, atRight⟩⟩
      have hasPower := (Layer.of_operator isOperator).1
      rw [ended] at hasPower
      cases hasPower
  | exponent isCaret _ _ atLeft atRight =>
      exact List.forall_mem_append.mpr
        ⟨atLeft, List.forall_mem_cons.mpr ⟨by simp [isCaret], atRight⟩⟩
  | negate isSign _ ih | not isSign _ ih => exact List.forall_mem_cons.mpr ⟨by simp [isSign], ih⟩
  | number here | truth here | name here => simp [here]
  | input isWord isOpening isType _ isClosing =>
      rcases isType with isType | isType <;> simp [isWord, isOpening, isType, isClosing]
  | group isOpening _ isClosing ih =>
      refine List.forall_mem_cons.mpr ⟨by simp [isOpening], List.forall_mem_append.mpr ⟨ih, ?_⟩⟩
      simp [isClosing]

end Grammar.Derives
end Scriptlet
