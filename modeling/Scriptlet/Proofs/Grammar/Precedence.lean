import Scriptlet.Proofs.Grammar.Layers
import Scriptlet.Proofs.Grammar.Operators

/-!
# Reading by layers

The parser for expressions knows no layers: it reads an operand and then, in a loop, the
operators that bind tighter than its context. Here it is shown to read exactly what the
layered grammar derives. One direction is an induction on derivations: wherever a derived
expression lies ahead, the loop goes on behind it with that expression on its left
(`Derives.expr_eq`). The other direction follows the loop and keeps an invariant
(`LeftOperand`): its left operand has a layer that the next operator cannot be part of.
-/

namespace Scriptlet

open Cursor (Passes)
open Scriptlet.Parser

/-- No operator between two operands binds tighter than `^`. -/
theorem Power.exponent_stopsAt (k : TokenKind) : exponent.StopsAt k := by
  intro next hasPower
  rcases Layer.exists_operator hasPower with ⟨-, rfl⟩ | ⟨layer, op, -, rfl⟩
  · rfl
  · cases layer <;> rfl

namespace Grammar

variable {c c₁ d : Cursor} {seg : List Token} {t : Token} {e left right : Expr} {p q : Power}
variable {layer : Layer}

/-- Wherever an expression of a layer lies ahead, and no operator that could be part of it
behind it, the loop goes on there with the expression on its left. -/
theorem Derives.expr_eq (derived : Derives layer seg e) {outer : Layer}
    (above : Layer.above? p = some outer) (inside : outer.rank ≤ layer.rank)
    (passes : c.Passes seg d) (stops : layer.power.StopsAt d.kind) :
    full.expr p c = full.operators p e d := by
  induction derived generalizing c d p outer with
  | tighter follows _ ih =>
      have rank := Layer.rank_next follows
      exact ih above (by omega) passes (stops.mono (Layer.power_next follows))
  | @operation layer next t op seg seg' left right isOperator follows _ _ atLeft atRight =>
      obtain ⟨hasPower, isBinary, toRight, behind, -⟩ := Layer.of_operator isOperator
      obtain ⟨c₁, passes₁, passes⟩ := passes.split
      obtain ⟨c₂, passes₂, passes₃⟩ := passes.uncons
      have atOperator : layer.power.StopsAt c₁.kind :=
        Power.stopsAt_of_power (passes₂.kind_eq ▸ hasPower)
      have looser := (Layer.looserThan_power_iff above isOperator).mpr inside
      have read : full.expr (rightPower layer.power) c₂ = (.ok right, d) := by
        rw [toRight]
        exact (atRight (behind.trans follows) (Nat.le_refl _) passes₃
          (stops.mono (Layer.power_next follows))).trans (operators_of_stopsAt stops)
      rw [atLeft above inside passes₁ atOperator]
      exact operators_of_operation passes₂ hasPower isBinary looser read
  | negate isSign _ ih | not isSign _ ih =>
      obtain ⟨c₁, passes₁, passes⟩ := passes.uncons
      have read := (ih rfl (Nat.le_refl _) passes stops).trans (operators_of_stopsAt stops)
      exact expr_eq_operators ((operand_eq_ok_iff passes₁ (isSign ▸ rfl)).mpr ⟨_, read, rfl⟩)
  | @exponent t seg seg' left right isCaret _ _ atLeft atRight =>
      obtain ⟨c₁, passes₁, passes⟩ := passes.split
      obtain ⟨c₂, passes₂, passes₃⟩ := passes.uncons
      have bound := Layer.rank_above above
      have looser : p.looserThan .exponent = true := by
        simp only [Power.looserThan, decide_eq_true_iff]
        exact Nat.lt_of_le_of_lt bound.2.2 (by decide)
      have read : full.expr (rightPower .exponent) c₂ = (.ok right, d) :=
        (atRight rfl (Nat.le_refl _) passes₃ stops).trans (operators_of_stopsAt stops)
      rw [atLeft above (Nat.le_trans bound.1 (by decide)) passes₁ (Power.exponent_stopsAt _)]
      exact operators_of_operation passes₂ (isCaret ▸ rfl) (isCaret ▸ rfl) looser read
  | number isNumber reads => exact expr_eq_operators (operand_of_number passes isNumber reads)
  | truth isTruth =>
      refine expr_eq_operators ?_
      simp only [operand, primary, kind_bind_apply, passes.kind_eq, isTruth, truthValue,
        Attempt.bind_eq_ok_iff]
      exact ⟨_, d, ⟨_, d, take_eq_ok passes, rfl⟩, rfl⟩
  | name isName =>
      refine expr_eq_operators ?_
      simp only [operand, primary, kind_bind_apply, passes.kind_eq, isName,
        Attempt.bind_ok (take_eq_ok passes)]
      rfl
  | input isWord isOpening isType named isClosing =>
      obtain ⟨c₁, passes₁, passes⟩ := passes.uncons
      obtain ⟨c₂, passes₂, passes⟩ := passes.uncons
      obtain ⟨c₃, passes₃, passes₄⟩ := passes.uncons
      refine expr_eq_operators ?_
      simp only [operand, kind_bind_apply, passes₁.kind_eq, isWord, inputRead,
        Attempt.bind_eq_ok_iff]
      exact ⟨_, _, take_eq_ok passes₁, _, _, expect_eq_ok passes₂ isOpening, _, _,
        typeName_eq_ok passes₃ isType named, _, _, expect_eq_ok passes₄ isClosing, rfl⟩
  | @group opening closing seg e isOpening _ isClosing ih =>
      obtain ⟨c₁, passes₁, passes⟩ := passes.uncons
      obtain ⟨c₂, passes₂, passes₃⟩ := passes.split
      have atClosing (p : Power) : p.StopsAt c₂.kind :=
        Power.stopsAt_of_none (by rw [passes₃.kind_eq, isClosing]; rfl)
      have read : full.expr .lowest c₁ = (.ok e, c₂) :=
        (ih rfl (Nat.le_refl _) passes₂ (atClosing _)).trans (operators_of_stopsAt (atClosing _))
      refine expr_eq_operators ?_
      simp only [operand, kind_bind_apply, passes₁.kind_eq, isOpening, grouping,
        Attempt.bind_eq_ok_iff]
      exact ⟨_, _, take_eq_ok passes₁, _, _, read, _, _, expect_eq_ok passes₃ isClosing, rfl⟩

/-- Tokens write at most one expression, whatever their layer. -/
theorem Derives.unique {layer' : Layer} {e' : Expr} (derived : Derives layer seg e)
    (derived' : Derives layer' seg e') : e = e' := by
  obtain ⟨d, passes, ended⟩ := passes_ofTokens derived.unended
  have atEnd (p : Power) : p.StopsAt d.kind :=
    Power.stopsAt_of_none (by rw [kind_of_ahead_nil ended]; rfl)
  have read {layer : Layer} {e : Expr} (derived : Derives layer seg e) :
      full.expr .lowest (.ofTokens seg) = (.ok e, d) :=
    (derived.expr_eq rfl (Nat.zero_le _) passes (atEnd _)).trans (operators_of_stopsAt (atEnd _))
  have same := (read derived).symm.trans (read derived')
  cases same
  rfl

/-- At a cursor, whatever is read as an expression is one of the layer above the power of
its context, and no operator follows that it should have taken in. -/
def ReadsDerived (c : Cursor) : Prop :=
  ∀ p layer e d, Layer.above? p = some layer → full.expr p c = (.ok e, d) →
    ∃ seg, c.Passes seg d ∧ Derives layer seg e ∧ p.StopsAt d.kind

private theorem derives_of_primary (ran : primary c = (.ok e, d)) :
    ∃ seg, c.Passes seg d ∧ Derives .primary seg e := by
  simp only [primary, kind_bind_apply] at ran
  generalize found : c.kind = k at ran
  split at ran
  · simp only [Attempt.bind_eq_ok_iff] at ran
    obtain ⟨x, m, read, done⟩ := ran
    cases done
    obtain ⟨reads, rfl⟩ := read?_of_numeral read
    exact ⟨_, .advance (by simp [found]), .number found reads⟩
  · simp only [truthValue, Attempt.bind_eq_ok_iff] at ran
    obtain ⟨b, m, ⟨t, m', taken, value⟩, done⟩ := ran
    cases value
    cases done
    obtain ⟨passes, same⟩ := passes_of_take (by simp [found]) taken
    exact ⟨_, passes, .truth (same.trans found)⟩
  · simp only [Attempt.bind_eq_ok_iff] at ran
    obtain ⟨t, m, taken, done⟩ := ran
    cases done
    obtain ⟨passes, same⟩ := passes_of_take (by simp [found]) taken
    exact ⟨_, passes, .name (same.trans found)⟩
  · cases ran

private theorem name_of_typeName {ty : Ty} (ran : typeName c = (.ok ty, d)) :
    c.Passes [c.current] d ∧ (c.kind = .typeName ∨ c.kind = .identifier) ∧
      c.current.text = ty.name := by
  unfold typeName at ran
  split at ran
  · rename_i isType
    have notEnd : c.kind ≠ .eof := by rcases isType with here | here <;> simp [here]
    split at ran
    · rename_i ty' named
      cases ran
      refine ⟨.advance notEnd, isType, ?_⟩
      unfold Ty.ofName? at named
      split at named
      · cases named; assumption
      · split at named <;> cases named
        assumption
    · cases ran
  · cases ran

private theorem derives_of_inputRead (found : c.kind = .inputWord)
    (ran : inputRead c = (.ok e, d)) : ∃ seg, c.Passes seg d ∧ Derives .primary seg e := by
  simp only [inputRead, Attempt.bind_eq_ok_iff] at ran
  obtain ⟨word, c₁, taken, opening, c₂, opened, ty, c₃, typed, closing, c₄, closed, done⟩ := ran
  cases done
  obtain ⟨passes₁, same⟩ := passes_of_take (by simp [found]) taken
  obtain ⟨passes₂, isOpening⟩ := passes_of_expect (by simp) opened
  obtain ⟨passes₃, isType, named⟩ := name_of_typeName typed
  obtain ⟨passes₄, isClosing⟩ := passes_of_expect (by simp) closed
  exact ⟨_, passes₁.trans (passes₂.trans (passes₃.trans passes₄)),
    .input (same.trans found) isOpening isType named isClosing⟩

/-- The invariant of the loop. It stands behind a left operand of a layer that is part of
the outer one, and no operator follows that would have to be part of that operand. -/
def LeftOperand (start : Cursor) (outer : Layer) (left : Expr) (c : Cursor) : Prop :=
  ∃ layer seg, outer.rank ≤ layer.rank ∧ start.Passes seg c ∧ Derives layer seg left ∧
    layer.power.StopsAt c.kind

section

variable (shorter : ∀ b : Cursor, b.ahead.length < c.ahead.length → ReadsDerived b)
include shorter

private theorem derives_of_grouping (found : c.kind = .openParen)
    (ran : full.grouping c = (.ok e, d)) : ∃ seg, c.Passes seg d ∧ Derives .primary seg e := by
  simp only [grouping, Attempt.bind_eq_ok_iff] at ran
  obtain ⟨opening, c₁, taken, e, c₂, read, closing, c₃, closed, done⟩ := ran
  cases done
  obtain ⟨passes₁, same⟩ := passes_of_take (by simp [found]) taken
  have fewer : c₁.ahead.length < c.ahead.length := by
    rw [passes₁.length_ahead, List.length_singleton]
    omega
  obtain ⟨seg, passes₂, derived, -⟩ := shorter c₁ fewer _ _ _ _ rfl read
  obtain ⟨passes₃, isClosing⟩ := passes_of_expect (by simp) closed
  exact ⟨_, passes₁.trans (passes₂.trans passes₃), .group (same.trans found) derived isClosing⟩

/-- An operand is a primary, or one behind an operator that has taken in all that it may. -/
theorem leftOperand_of_operand (ran : full.operand c = (.ok e, d)) :
    LeftOperand c .unary e d := by
  have ofPrimary : (∃ seg, c.Passes seg d ∧ Derives .primary seg e) → LeftOperand c .unary e d := by
    rintro ⟨seg, passes, derived⟩
    exact ⟨.primary, seg, by decide, passes, derived, Power.exponent_stopsAt _⟩
  have ofSign (op : UnaryOp) (isSign : c.kind.unaryOp? = some op)
      (rule : ∀ seg inner, Derives .unary seg inner →
        Derives .unary (c.current :: seg) (.unary op inner)) : LeftOperand c .unary e d := by
    have notEnd : c.kind ≠ .eof := by
      intro ended
      rw [ended] at isSign
      cases isSign
    obtain ⟨inner, read, rfl⟩ := (operand_eq_ok_iff (.advance notEnd) isSign).mp ran
    obtain ⟨seg, passes, derived, stops⟩ :=
      shorter _ (Cursor.length_ahead_advance notEnd) .unary .unary inner d rfl read
    exact ⟨.unary, _, Nat.le_refl _, (Passes.advance notEnd).trans passes, rule seg inner derived,
      stops⟩
  have byKind := ran
  simp only [operand, kind_bind_apply] at byKind
  generalize found : c.kind = k at byKind
  split at byKind
  · exact ofPrimary (derives_of_primary byKind)
  · exact ofPrimary (derives_of_primary byKind)
  · exact ofPrimary (derives_of_primary byKind)
  · exact ofPrimary (derives_of_inputRead found byKind)
  · exact ofSign .negate (by rw [found]; rfl) fun _ _ => .negate found
  · exact ofSign .not (by rw [found]; rfl) fun _ _ => .not found
  · exact ofPrimary (derives_of_grouping shorter found byKind)
  · cases byKind

/-- One round of the loop keeps the invariant. An operator that may follow the left operand
either is one of a looser layer, to which the left operand belongs as well, or it is `^`
and the left operand is a primary. -/
theorem leftOperand_of_operation {start : Cursor} {outer : Layer}
    (above : Layer.above? p = some outer) (before : LeftOperand start outer left c)
    (hasPower : c.kind.power? = some q) (looser : p.looserThan q = true)
    (ran : full.binary left (rightPower q) c = (.ok e, d)) :
    LeftOperand start outer e d ∧ d.ahead.length < c.ahead.length := by
  obtain ⟨layer, seg, -, passes, derived, stops⟩ := before
  have notEnd : c.kind ≠ .eof := by
    intro ended
    rw [ended] at hasPower
    cases hasPower
  have bound : q.rank ≤ layer.power.rank := by
    have notTighter := stops q hasPower
    rwa [Power.looserThan, decide_eq_false_iff_not, Nat.not_lt] at notTighter
  have operation {op : BinaryOp} {inner : Layer} (isBinary : c.kind.binaryOp? = some op)
      (behind : Layer.above? (rightPower q) = some inner) : ∃ seg' right,
      e = .binary op left right ∧ Derives inner seg' right ∧
      start.Passes (seg ++ c.current :: seg') d ∧ (rightPower q).StopsAt d.kind ∧
      d.ahead.length < c.ahead.length := by
    have fewer := Cursor.length_ahead_advance notEnd
    obtain ⟨right, read, rfl⟩ := (binary_eq_ok_iff (.advance notEnd) isBinary).mp ran
    obtain ⟨seg', passes', atRight, stops'⟩ := shorter _ fewer _ inner right d behind read
    have rest := passes'.length_ahead
    exact ⟨seg', right, rfl, atRight, passes.trans ((Passes.advance notEnd).trans passes'), stops',
      by omega⟩
  rcases Layer.exists_operator hasPower with ⟨isCaret, rfl⟩ | ⟨layer', op, isOperator, rfl⟩
  · obtain rfl := Layer.eq_primary_of_power bound
    have isPower : c.kind.binaryOp? = some .pow := by rw [isCaret]; rfl
    obtain ⟨seg', right, rfl, atRight, passes', stops', fewer⟩ := operation isPower rfl
    have inside := Nat.le_trans (Layer.rank_above above).1 (Nat.le_succ _)
    exact ⟨⟨.exponentiation, _, inside, passes', .exponent isCaret derived atRight, stops'⟩, fewer⟩
  · obtain ⟨-, isBinary, toRight, behind, rank, early⟩ := Layer.of_operator isOperator
    obtain ⟨next, follows⟩ := Layer.exists_next (Nat.lt_trans early (by decide))
    rw [toRight] at operation
    obtain ⟨seg', right, rfl, atRight, passes', stops', fewer⟩ :=
      operation isBinary (behind.trans follows)
    have looserLayer : layer'.rank ≤ layer.rank := by
      have tight := layer.rank_power
      omega
    have inside := (Layer.looserThan_power_iff above isOperator).mp looser
    exact ⟨⟨layer', _, inside, passes',
      .operation isOperator follows (derived.loosen looserLayer) atRight, stops'⟩, fewer⟩

end

/-- All rounds of the loop, up to its end. -/
theorem exists_derives_of_operators {start : Cursor} {outer : Layer}
    (above : Layer.above? p = some outer)
    (shorter : ∀ b : Cursor, b.ahead.length < start.ahead.length → ReadsDerived b)
    (before : LeftOperand start outer left c) (ran : full.operators p left c = (.ok e, d)) :
    ∃ seg, start.Passes seg d ∧ Derives outer seg e ∧ p.StopsAt d.kind := by
  induction rest : c.ahead.length using Nat.strongRecOn generalizing c left with
  | ind n ih =>
    subst rest
    have atStart := before
    obtain ⟨layer, seg, inside, passes, derived, -⟩ := atStart
    by_cases stopped : p.StopsAt c.kind
    · rw [operators_of_stopsAt stopped] at ran
      cases ran
      exact ⟨seg, passes, derived.loosen inside, stopped⟩
    · obtain ⟨q, hasPower, looser⟩ : ∃ q, c.kind.power? = some q ∧ p.looserThan q = true := by
        simpa [Power.StopsAt] using stopped
      rw [operators_of_looserThan hasPower looser, Attempt.bind_eq_ok_iff] at ran
      obtain ⟨e', c₁, operation, ran⟩ := ran
      have ahead := passes.length_ahead
      obtain ⟨after, fewer⟩ := leftOperand_of_operation (fun b few => shorter b (by omega)) above
        before hasPower looser operation
      exact ih _ fewer after ran rfl

theorem readsDerived (c : Cursor) : ReadsDerived c := by
  induction rest : c.ahead.length using Nat.strongRecOn generalizing c with
  | ind n ih =>
    subst rest
    intro p layer e d above ran
    have shorter (b : Cursor) (few : b.ahead.length < c.ahead.length) : ReadsDerived b :=
      ih _ few b rfl
    rw [full_expr, exprForm, Attempt.bind_eq_ok_iff] at ran
    obtain ⟨left, c₁, read, ran⟩ := ran
    obtain ⟨inner, seg, tight, operand⟩ := leftOperand_of_operand shorter read
    have outside := (Layer.rank_above above).1
    exact exists_derives_of_operators above shorter ⟨inner, seg, by omega, operand⟩ ran

/-- An expression is read exactly if it is derived at the layer above the power, and the
next token is no operator that binds tighter. -/
theorem expr_eq_ok_iff_passes (above : Layer.above? p = some layer) :
    full.expr p c = (.ok e, d) ↔
      ∃ seg, c.Passes seg d ∧ Derives layer seg e ∧ p.StopsAt d.kind := by
  refine ⟨readsDerived c p layer e d above, ?_⟩
  rintro ⟨seg, passes, derived, stops⟩
  have inLayer := stops.mono (Layer.rank_above above).2.1
  exact (derived.expr_eq above (Nat.le_refl _) passes inLayer).trans (operators_of_stopsAt stops)

end Grammar

namespace Cursor

/-- The cursor at a position in a stream. -/
def atIndex (tokens : List Token) (i : Nat) : Cursor :=
  { ofTokens tokens with passed := i, ahead := (ofTokens tokens).ahead.drop i }

variable {tokens seg : List Token} {i j : Nat} {d : Cursor}

/-- A stream is what lies ahead of its start, and an end of input may stand behind that. -/
theorem exists_append_ofTokens (tokens : List Token) :
    ∃ last, (ofTokens tokens).ahead ++ last = tokens ∧ ∀ t ∈ last, t.kind = .eof := by
  rcases ofTokens_cases tokens with closed | whole
  · exact ⟨_, closed, by simp [(ofTokens tokens).final_kind]⟩
  · exact ⟨[], by rw [List.append_nil, whole], nofun⟩

theorem eq_atIndex_of_passes (passes : (atIndex tokens i).Passes seg d) :
    d = atIndex tokens (i + seg.length) := by
  have ahead : (ofTokens tokens).ahead.drop i = seg ++ d.ahead := passes.ahead
  refine passes.unique ⟨?_, rfl, rfl, passes.unended⟩
  change _ = _ ++ (ofTokens tokens).ahead.drop (i + seg.length)
  rw [← List.drop_drop, ahead, List.drop_left]
  exact ahead

/-- What is passed between two positions is the slice of the stream between them. -/
theorem passes_atIndex_iff (nonempty : seg ≠ []) (unended : ∀ t ∈ seg, t.kind ≠ .eof) :
    (atIndex tokens i).Passes seg (atIndex tokens j) ↔
      i ≤ j ∧ j ≤ tokens.length ∧ (tokens.drop i).take (j - i) = seg := by
  obtain ⟨last, whole, ended⟩ := exists_append_ofTokens tokens
  have length := congrArg List.length whole
  rw [List.length_append] at length
  have positive := List.length_pos_iff.mpr nonempty
  constructor
  · intro passes
    have ahead : (ofTokens tokens).ahead.drop i = seg ++ (ofTokens tokens).ahead.drop j :=
      passes.ahead
    have passed : j = i + seg.length := passes.passed
    have lengths := congrArg List.length ahead
    simp only [List.length_append, List.length_drop] at lengths
    refine ⟨by omega, by omega, ?_⟩
    rw [← whole, List.drop_append_of_le_length (by omega), ahead, passed, Nat.add_sub_cancel_left,
      List.append_assoc, List.take_left]
  · rintro ⟨ordered, bounded, rfl⟩
    rw [List.length_take, List.length_drop] at positive
    -- The last token of the slice is no end of input, so it lies ahead of the start.
    have inside : j ≤ (ofTokens tokens).ahead.length := by
      refine Nat.not_lt.mp fun beyond => ?_
      obtain ⟨t, found⟩ : ∃ t, tokens[j - 1]? = some t :=
        ⟨_, List.getElem?_eq_getElem (by omega)⟩
      have inSlice : t ∈ (tokens.drop i).take (j - i) := by
        refine List.mem_of_getElem? (i := j - 1 - i) ?_
        rw [List.getElem?_take_of_lt (by omega), List.getElem?_drop, ← found]
        congr 1
        omega
      have inLast : t ∈ last := by
        rw [← whole, List.getElem?_append_right (by omega)] at found
        exact List.mem_of_getElem? found
      exact unended t inSlice (ended t inLast)
    have slice : (tokens.drop i).take (j - i) = ((ofTokens tokens).ahead.drop i).take (j - i) := by
      conv_lhs => rw [← whole]
      rw [List.drop_append_of_le_length (by omega),
        List.take_append_of_le_length (by rw [List.length_drop]; omega)]
    refine ⟨?_, ?_, rfl, unended⟩
    · have rest :
          (ofTokens tokens).ahead.drop j = ((ofTokens tokens).ahead.drop i).drop (j - i) := by
        rw [List.drop_drop, Nat.add_sub_cancel' ordered]
      change _ = _ ++ (ofTokens tokens).ahead.drop j
      rw [slice, rest]
      exact (List.take_append_drop (j - i) _).symm
    · rw [List.length_take, List.length_drop]
      change j = i + min (j - i) (tokens.length - i)
      omega

theorem stopsAt_atIndex_iff {p : Power} :
    p.StopsAt (atIndex tokens j).kind ↔ ∀ t, tokens[j]? = some t → p.StopsAt t.kind := by
  obtain ⟨last, whole, ended⟩ := exists_append_ofTokens tokens
  have here : (atIndex tokens j).current =
      ((ofTokens tokens).ahead[j]?).getD (ofTokens tokens).final := by
    simp [atIndex, current, List.headD_eq_head?_getD, List.head?_drop]
  have atEnd {t : Token} (isEnd : t.kind = .eof) : p.StopsAt t.kind :=
    Power.stopsAt_of_none (by rw [isEnd]; rfl)
  rw [kind, here]
  cases found : (ofTokens tokens).ahead[j]? with
  | some t =>
      have inTokens : tokens[j]? = some t := by
        conv_lhs => rw [← whole]
        rw [List.getElem?_append_left (List.getElem?_eq_some_iff.mp found).1, found]
      simp [inTokens]
  | none =>
      have behind : tokens[j]? = last[j - (ofTokens tokens).ahead.length]? := by
        conv_lhs => rw [← whole]
        exact List.getElem?_append_right (List.getElem?_eq_none_iff.mp found)
      refine iff_of_true (atEnd (ofTokens tokens).final_kind) fun t inTokens => ?_
      rw [behind] at inTokens
      exact atEnd (ended t (List.mem_of_getElem? inTokens))

end Cursor

namespace Grammar

/-- The parser reads by layers. From a position in any stream, in any context up to that
of an operator before its operand, it gives an expression and stops at a later position
exactly if the tokens between the two are that expression in the layer above the context,
and the token at which it stops is no operator that binds tighter. It stops at positions
only, and no other expression is derived from the same tokens. -/
theorem expr_eq_ok_iff_derives {power : Power} {layer : Layer}
    (above : Layer.above? power = some layer) (tokens : List Token) (i : Nat) :
    let c := Cursor.atIndex tokens i
    (∀ e j, (forCursor c).expr power c = (.ok e, .atIndex tokens j) ↔
      i ≤ j ∧ j ≤ tokens.length ∧ Derives layer ((tokens.drop i).take (j - i)) e ∧
        ∀ t, tokens[j]? = some t → power.StopsAt t.kind) ∧
    (∀ e d, (forCursor c).expr power c = (.ok e, d) → ∃ j, d = .atIndex tokens j) ∧
    ∀ seg e e', Derives layer seg e → Derives layer seg e' → e = e' := by
  intro c
  have read (e : Expr) (d : Cursor) : (forCursor c).expr power c = (.ok e, d) ↔
      ∃ seg, c.Passes seg d ∧ Derives layer seg e ∧ power.StopsAt d.kind :=
    expr_eq_ok_iff_passes above
  refine ⟨fun e j => ?_, fun e d ran => ?_, fun _ _ _ => Derives.unique⟩
  · rw [read, Cursor.stopsAt_atIndex_iff]
    constructor
    · rintro ⟨seg, passes, derived, stops⟩
      obtain ⟨ordered, bounded, rfl⟩ :=
        (Cursor.passes_atIndex_iff derived.ne_nil derived.unended).mp passes
      exact ⟨ordered, bounded, derived, stops⟩
    · rintro ⟨ordered, bounded, derived, stops⟩
      exact ⟨_, (Cursor.passes_atIndex_iff derived.ne_nil derived.unended).mpr
        ⟨ordered, bounded, rfl⟩, derived, stops⟩
  · obtain ⟨seg, passes, -⟩ := (read e d).mp ran
    exact ⟨_, Cursor.eq_atIndex_of_passes passes⟩

/-- The tokens of `a ^ - b ^ c * d`. -/
def signedPowers : List Token :=
  [(.identifier, "a"), (.caret, "^"), (.dash, "-"), (.identifier, "b"), (.caret, "^"),
    (.identifier, "c"), (.star, "*"), (.identifier, "d")].map
      fun (kind, text) => ⟨kind, text, ⟨.null, .null⟩⟩

/-- The sign takes in the second power and no product, and the first power takes in the
sign. -/
theorem signedPowers_read :
    let c := Cursor.atIndex signedPowers 0
    let power : Expr :=
      .binary .pow (.var "a") (.unary .negate (.binary .pow (.var "b") (.var "c")))
    (forCursor c).expr .unary c = (.ok power, .atIndex signedPowers 6) ∧
    (forCursor c).expr .lowest c =
      (.ok (.binary .mul power (.var "d")), .atIndex signedPowers 8) := by
  intro c power
  have inner : Derives .unary ((signedPowers.drop 3).take 3) (.binary .pow (.var "b") (.var "c")) :=
    .tighter rfl (@Derives.exponent _ [_] _ _ _ rfl (.name rfl)
      (Derives.loosen (.name rfl) (by decide)))
  have outer : Derives .unary (signedPowers.take 6) power :=
    .tighter rfl (@Derives.exponent _ [_] _ _ _ rfl (.name rfl) (.negate rfl inner))
  have whole : Derives .disjunction signedPowers (.binary .mul power (.var "d")) := by
    have product : Derives .product signedPowers (.binary .mul power (.var "d")) :=
      @Derives.operation .product .unary _ .mul (signedPowers.take 6) [_] _ _ rfl rfl
        (outer.loosen (by decide)) (Derives.loosen (.name rfl) (by decide))
    exact product.loosen (by decide)
  have inSign : Layer.above? .unary = some .unary := rfl
  have onTop : Layer.above? .lowest = some .disjunction := rfl
  constructor
  · refine ((expr_eq_ok_iff_derives inSign signedPowers 0).1 power 6).mpr
      ⟨by decide, by decide, outer, ?_⟩
    rintro t ⟨⟩ next ⟨⟩
    rfl
  · exact ((expr_eq_ok_iff_derives onTop signedPowers 0).1 _ 8).mpr
      ⟨by decide, by decide, whole, nofun⟩

end Grammar
end Scriptlet
