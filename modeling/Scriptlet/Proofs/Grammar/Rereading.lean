import Scriptlet.Proofs.Grammar.Operators
import Scriptlet.Proofs.Stmt.Printing
import Scriptlet.Proofs.Stmt.Reread

/-!
# Reading the words of a printed tree

A printed expression is a single operand: whatever has operators is in parentheses.
So its words are read as one expression before any token that is no operator, and
the words of a printable tree write the tree as it is read back.
-/

namespace Scriptlet

open Binary64
open Cursor (Passes)

/-- A finite number has a sign or none, and digits that read as its magnitude. -/
theorem numberWords_finite {x : Float} (finite : x.isFinite = true) :
    ∃ negative text y, numberWords x = signWords negative ++ [(.number, text)] ∧
      Decimal.read? text.toList = some y ∧ y.isFinite = true ∧
      rereadNumber x = (if negative then -y else y) ∧ (negative = true → x < 0) := by
  rw [isFinite_eq, decide_eq_true_iff] at finite
  have notInf : x.isInf = false := by rw [isInf_eq, decide_eq_false_iff_not]; omega
  have notNaN : x.isNaN = false := by rw [isNaN_eq, decide_eq_false_iff_not]; omega
  by_cases zero : (x == 0) = true
  · refine ⟨false, "0", 0, ?_, ?_, by rw [isFinite_eq, rank_zero]; decide, ?_, nofun⟩
    · simp [numberWords, notInf, zero, signWords]
    · have digits : Decimal.writeMagnitude 0 = "0".toList := rfl
      rw [← digits, Decimal.read?_writeMagnitude (by decide), ofRank_zero]
    · simp [rereadNumber, zero]
  · have positive : rank x ≠ 0 := fun none => zero (beq_zero_iff.mpr none)
    refine ⟨isNegative x, String.ofList (Decimal.writeMagnitude (rank x)), ofRank false (rank x),
      ?_, ?_, ?_, ?_, ?_⟩
    · simp only [numberWords, notInf, zero, notNaN, Bool.false_eq_true, if_false]
    · rw [String.toList_ofList, Decimal.read?_writeMagnitude finite]
    · rwa [isFinite_eq, (rank_ofRank false finite.le).2, decide_eq_true_iff]
    · rw [rereadNumber, if_neg zero]
      have same := ofRank_rank x finite.le
      cases sign : isNegative x with
      | false => rw [sign] at same; simp [same]
      | true => rw [sign] at same; simp [neg_ofRank finite.le, same]
    · intro negative
      exact lt_zero_iff.mpr ⟨negative, by omega, finite.le⟩

/-- What is known of every printed word: it does not end the input, and if it is a
number, it reads as a finite one. -/
def Word.Printed (w : Word) : Prop :=
  w.1 ≠ .eof ∧ (w.1 = .number → ∃ x, Decimal.read? w.2.toList = some x ∧ x.isFinite = true)

/-- A word of any other kind is a symbol or a name, and nothing more is asked of it. -/
theorem Word.Printed.symbol {kind : TokenKind} {text : String}
    (other : (kind == .eof || kind == .number) = false) : Word.Printed (kind, text) := by
  rw [Bool.or_eq_false_iff, beq_eq_false_iff_ne, beq_eq_false_iff_ne] at other
  exact ⟨other.1, fun number => absurd number other.2⟩

theorem printed_numberWords (x : Float) : ∀ w ∈ numberWords x, w.Printed := by
  have sign (negative : Bool) : ∀ w ∈ signWords negative, Word.Printed w := by
    cases negative <;> simp [signWords, Word.Printed]
  by_cases finite : x.isFinite = true
  · obtain ⟨negative, text, y, words, read, magnitude, -⟩ := numberWords_finite finite
    rw [words, List.forall_mem_append, List.forall_mem_singleton]
    exact ⟨sign negative, TokenKind.noConfusion, fun _ => ⟨y, read, magnitude⟩⟩
  · rw [isFinite_eq, decide_eq_true_iff, Nat.not_lt] at finite
    rcases finite.eq_or_lt with infinite | beyond
    · have isInf : x.isInf = true := by rw [isInf_eq, ← infinite, decide_eq_true_iff]
      rw [numberWords, if_pos isInf, List.forall_mem_append, List.forall_mem_singleton]
      exact ⟨sign _, .symbol rfl⟩
    · have notInf : x.isInf = false := by rw [isInf_eq, decide_eq_false_iff_not]; omega
      have isNaN : x.isNaN = true := by rwa [isNaN_eq, decide_eq_true_iff]
      have notZero : ¬ (x == 0) = true := by rw [beq_zero_iff]; omega
      rw [numberWords, if_neg (by simp [notInf]), if_neg notZero, if_pos isNaN,
        List.forall_mem_singleton]
      exact .symbol rfl

theorem Expr.printed_words (e : Expr) : ∀ w ∈ e.words, w.Printed := by
  induction e with
  | num x => exact printed_numberWords x
  | bool b => simp [words, Word.Printed]
  | var name => simp [words, Word.Printed]
  | input ty => simp [words, Word.Printed]
  | binary op left right atLeft atRight =>
      have operator : op.word.Printed := by cases op <;> exact .symbol rfl
      simp only [words, List.forall_mem_cons, List.forall_mem_append]
      exact ⟨.symbol rfl, atLeft, operator, atRight, .symbol rfl, List.forall_mem_nil _⟩
  | unary op operand ih =>
      have operator : op.word.Printed := by cases op <;> exact .symbol rfl
      simp only [words, List.forall_mem_cons, List.forall_mem_append]
      exact ⟨.symbol rfl, operator, ih, .symbol rfl, List.forall_mem_nil _⟩

namespace Stmt

theorem printed_headWords {w : Word} (word : w.Printed) (e : Expr) :
    ∀ v ∈ headWords w e, v.Printed := by
  simp only [headWords, List.forall_mem_cons, List.forall_mem_append]
  exact ⟨word, .symbol rfl, e.printed_words, .symbol rfl, List.forall_mem_nil _⟩

private theorem printed_wordsAll {body : List Stmt} (each : ∀ s ∈ body, ∀ w ∈ s.words, w.Printed) :
    ∀ w ∈ wordsAll body, w.Printed := by
  induction body with
  | nil => exact List.forall_mem_nil _
  | cons s body ih =>
      simp only [List.forall_mem_cons] at each
      exact List.forall_mem_append.mpr ⟨each.1, ih each.2⟩

private theorem printed_wordsCases {entries : List (Value × Stmt)}
    (each : ∀ entry ∈ entries, ∀ w ∈ entry.2.words, w.Printed) :
    ∀ w ∈ wordsCases entries, w.Printed := by
  induction entries with
  | nil => exact List.forall_mem_nil _
  | cons entry entries ih =>
      obtain ⟨label, body⟩ := entry
      simp only [List.forall_mem_cons] at each
      have atLabel : ∀ w ∈ label.words, w.Printed := by
        cases label with
        | num x => exact printed_numberWords x
        | bool b => exact List.forall_mem_singleton.mpr (.symbol rfl)
      simp only [wordsCases, List.forall_mem_cons, List.forall_mem_append]
      exact ⟨.symbol rfl, atLabel, .symbol rfl, each.1, ih each.2⟩

/-- No number is printed with digits unless it is finite. -/
theorem printed_words (s : Stmt) : ∀ w ∈ s.words, w.Printed := by
  induction s with
  | declare name e =>
      simp only [words, List.forall_mem_cons, List.forall_mem_append]
      exact ⟨.symbol rfl, .symbol rfl, .symbol rfl, e.printed_words, .symbol rfl,
        List.forall_mem_nil _⟩
  | assign name e =>
      simp only [words, List.forall_mem_cons, List.forall_mem_append]
      exact ⟨.symbol rfl, .symbol rfl, e.printed_words, .symbol rfl, List.forall_mem_nil _⟩
  | print e =>
      simp only [words, List.forall_mem_cons, List.forall_mem_append]
      exact ⟨.symbol rfl, e.printed_words, .symbol rfl, List.forall_mem_nil _⟩
  | block body ih =>
      simp only [words, List.forall_mem_cons, List.forall_mem_append]
      exact ⟨.symbol rfl, printed_wordsAll ih, .symbol rfl, List.forall_mem_nil _⟩
  | branch condition onTrue onFalse atTrue atFalse =>
      have inFalse : ∀ w ∈ wordsElse onFalse, w.Printed := by
        cases onFalse with
        | none => exact List.forall_mem_nil _
        | some s => exact List.forall_mem_cons.mpr ⟨.symbol rfl, atFalse s rfl⟩
      simp only [words, List.forall_mem_append]
      exact ⟨printed_headWords (.symbol rfl) condition, atTrue, inFalse⟩
  | loop condition body ih =>
      simp only [words, List.forall_mem_append]
      exact ⟨printed_headWords (.symbol rfl) condition, ih⟩
  | switch focus cases fallback atCases atFallback =>
      obtain ⟨entries⟩ := cases
      have inFallback : ∀ w ∈ wordsFallback fallback, w.Printed := by
        cases fallback with
        | none => exact List.forall_mem_nil _
        | some s =>
            simp only [wordsFallback, List.forall_mem_cons]
            exact ⟨.symbol rfl, .symbol rfl, atFallback s rfl⟩
      simp only [words, List.forall_mem_cons, List.forall_mem_append]
      exact ⟨printed_headWords (.symbol rfl) focus, .symbol rfl,
        printed_wordsCases atCases, inFallback, .symbol rfl, List.forall_mem_nil _⟩

end Stmt

/-- What the words of operators say to the parser. -/
theorem BinaryOp.kind_word (op : BinaryOp) :
    op.word.1.binaryOp? = some op ∧
      ∃ power, op.word.1.power? = some power ∧ Power.lowest.looserThan power = true := by
  cases op <;> exact ⟨rfl, _, rfl, rfl⟩

theorem UnaryOp.unaryOp?_word (op : UnaryOp) : op.word.1.unaryOp? = some op := by
  cases op <;> rfl

namespace Grammar

open Scriptlet.Parser

variable {c d : Cursor} {seg : List Token} {e : Expr}

/-- An operand before what is no operator is an expression. -/
theorem expr_of_operand {power : Power} (read : full.operand c = (.ok e, d))
    (stops : d.kind.power? = none) : full.expr power c = (.ok e, d) := by
  rw [expr_eq_operators read, operators_of_stopsAt (Power.stopsAt_of_none stops)]

/-- Tokens with given words, one by one. -/
theorem cons_of_words {w : Word} {ws : List Word} (spelled : seg.map Token.word = w :: ws) :
    ∃ t rest, seg = t :: rest ∧ t.kind = w.1 ∧ t.text = w.2 ∧ rest.map Token.word = ws := by
  obtain ⟨t, rest, rfl, rfl, same⟩ := List.map_eq_cons_iff.mp spelled
  exact ⟨t, rest, rfl, rfl, rfl, same⟩

theorem singleton_of_words {w : Word} (spelled : seg.map Token.word = [w]) :
    ∃ t, seg = [t] ∧ t.kind = w.1 ∧ t.text = w.2 := by
  obtain ⟨t, rest, rfl, kind, text, none⟩ := cons_of_words spelled
  obtain rfl := List.map_eq_nil_iff.mp none
  exact ⟨t, rfl, kind, text⟩

/-- An operator between two operands. -/
private theorem expr_of_operation {c₁ c₂ : Cursor} {op : BinaryOp} {left right : Expr} {t : Token}
    (atLeft : full.operand c = (.ok left, c₁)) (passes : c₁.Passes [t] c₂)
    (isOperator : t.kind = op.word.1) (atRight : full.operand c₂ = (.ok right, d))
    (stops : d.kind.power? = none) : full.expr .lowest c = (.ok (.binary op left right), d) := by
  obtain ⟨isOp, power, hasPower, looser⟩ := op.kind_word
  rw [← isOperator] at isOp hasPower
  rw [expr_eq_operators atLeft,
    operators_of_operation passes hasPower isOp looser (expr_of_operand atRight stops)]
  exact operators_of_stopsAt (Power.stopsAt_of_none stops)

/-- An operator before its operand. -/
private theorem operand_of_sign {c₁ : Cursor} {op : UnaryOp} {t : Token}
    (passes : c.Passes [t] c₁) (isOperator : t.kind = op.word.1)
    (read : full.operand c₁ = (.ok e, d)) (stops : d.kind.power? = none) :
    full.operand c = (.ok (.unary op e), d) := by
  have isSign : t.kind.unaryOp? = some op := isOperator ▸ op.unaryOp?_word
  exact (operand_eq_ok_iff passes isSign).mpr ⟨e, expr_of_operand read stops, rfl⟩

/-- An expression in parentheses, which no operator follows. -/
private theorem operand_of_group {opening closing : Token}
    (passes : c.Passes (opening :: (seg ++ [closing])) d) (isOpening : opening.kind = .openParen)
    (isClosing : closing.kind = .closeParen)
    (read : ∀ c₁ c₂ : Cursor, c₁.Passes seg c₂ → c₂.kind.power? = none →
      full.expr .lowest c₁ = (.ok e, c₂)) : full.operand c = (.ok e, d) := by
  have here : c.kind = .openParen := passes.kind_eq.trans isOpening
  obtain ⟨c₁, passes₁, passes⟩ := passes.uncons
  obtain ⟨c₂, passes₂, passes₃⟩ := passes.split
  have inside := read c₁ c₂ passes₂ (by rw [passes₃.kind_eq, isClosing]; rfl)
  simp only [operand, kind_bind_apply, here, grouping, Attempt.bind_eq_ok_iff]
  exact ⟨_, _, take_eq_ok passes₁, _, _, inside, _, _, expect_eq_ok passes₃ isClosing, rfl⟩

/-- A printed expression is read as an operand. -/
theorem operand_of_words (literals : ∀ x ∈ e.literals, x.isFinite = true ∧ ¬ x < 0)
    (passes : c.Passes seg d) (spelled : seg.map Token.word = e.words) :
    full.operand c = (.ok e.reread, d) := by
  induction e generalizing c d seg with
  | num x =>
      obtain ⟨finite, notNegative⟩ := literals x (by simp [Expr.literals])
      obtain ⟨negative, text, y, words, read, -, same, less⟩ := numberWords_finite finite
      cases negative with
      | true => exact absurd (less rfl) notNegative
      | false =>
          rw [Expr.words, words] at spelled
          obtain ⟨t, rfl, kind, rfl⟩ := singleton_of_words spelled
          rw [Expr.reread, same]
          exact operand_of_number passes kind read
  | bool b =>
      obtain ⟨t, rfl, kind, text⟩ := singleton_of_words spelled
      have here : c.kind = .boolean := passes.kind_eq.trans kind
      have value : (t.text == "true") = b := by rw [text]; cases b <;> decide
      simp only [operand, primary, kind_bind_apply, here, truthValue, Attempt.bind_eq_ok_iff]
      exact ⟨b, d, ⟨t, d, take_eq_ok passes, by rw [value]; rfl⟩, rfl⟩
  | var name =>
      obtain ⟨t, rfl, kind, rfl⟩ := singleton_of_words spelled
      have here : c.kind = .identifier := passes.kind_eq.trans kind
      simp only [operand, primary, kind_bind_apply, here, Attempt.bind_ok (take_eq_ok passes)]
      rfl
  | input ty =>
      obtain ⟨t₁, _, rfl, kind₁, -, spelled⟩ := cons_of_words spelled
      obtain ⟨t₂, _, rfl, kind₂, -, spelled⟩ := cons_of_words spelled
      obtain ⟨t₃, _, rfl, kind₃, text₃, spelled⟩ := cons_of_words spelled
      obtain ⟨t₄, rfl, kind₄, -⟩ := singleton_of_words spelled
      have here : c.kind = .inputWord := passes.kind_eq.trans kind₁
      obtain ⟨c₁, passes₁, passes⟩ := passes.uncons
      obtain ⟨c₂, passes₂, passes⟩ := passes.uncons
      obtain ⟨c₃, passes₃, passes₄⟩ := passes.uncons
      simp only [operand, kind_bind_apply, here, inputRead, Attempt.bind_eq_ok_iff]
      exact ⟨_, _, take_eq_ok passes₁, _, _, expect_eq_ok passes₂ kind₂, _, _,
        typeName_eq_ok passes₃ (.inl kind₃) text₃, _, _, expect_eq_ok passes₄ kind₄, rfl⟩
  | binary op left right atLeft atRight =>
      simp only [Expr.literals, List.forall_mem_append] at literals
      obtain ⟨opening, _, rfl, isOpening, -, spelled⟩ := cons_of_words spelled
      obtain ⟨inLeft, _, rfl, spelledLeft, spelled⟩ := List.map_eq_append_iff.mp spelled
      obtain ⟨middle, _, rfl, isOperator, -, spelled⟩ := cons_of_words spelled
      obtain ⟨inRight, _, rfl, spelledRight, spelled⟩ := List.map_eq_append_iff.mp spelled
      obtain ⟨closing, rfl, isClosing, -⟩ := singleton_of_words spelled
      have passes : c.Passes (opening :: ((inLeft ++ middle :: inRight) ++ [closing])) d := by
        simpa using passes
      refine operand_of_group passes isOpening isClosing fun c₁ c₄ passes stops => ?_
      obtain ⟨c₂, passes₁, passes⟩ := passes.split
      obtain ⟨c₃, passes₂, passes₃⟩ := passes.uncons
      exact expr_of_operation (atLeft literals.1 passes₁ spelledLeft) passes₂ isOperator
        (atRight literals.2 passes₃ spelledRight) stops
  | unary op operand ih =>
      obtain ⟨opening, _, rfl, isOpening, -, spelled⟩ := cons_of_words spelled
      obtain ⟨before, _, rfl, isOperator, -, spelled⟩ := cons_of_words spelled
      obtain ⟨inside, _, rfl, spelledInside, spelled⟩ := List.map_eq_append_iff.mp spelled
      obtain ⟨closing, rfl, isClosing, -⟩ := singleton_of_words spelled
      have passes : c.Passes (opening :: ((before :: inside) ++ [closing])) d := passes
      refine operand_of_group passes isOpening isClosing fun c₁ c₃ passes stops => ?_
      obtain ⟨c₂, passes₁, passes₂⟩ := passes.uncons
      exact expr_of_operand
        (operand_of_sign passes₁ isOperator (ih literals passes₂ spelledInside) stops) stops

theorem wholeExpr?_of_operand (unended : ∀ t ∈ seg, t.kind ≠ .eof)
    (read : ∀ c d : Cursor, c.Passes seg d → full.operand c = (.ok e, d)) :
    wholeExpr? seg = some e := by
  obtain ⟨d, passes, ended⟩ := passes_ofTokens unended
  have stops : d.kind.power? = none := by rw [kind_of_ahead_nil ended]; rfl
  exact (expr_eq_ok_iff passes stops).mp (expr_of_operand (read _ d passes) stops)

theorem wholeExpr?_of_words (literals : ∀ x ∈ e.literals, x.isFinite = true ∧ ¬ x < 0)
    (spelled : seg.map Token.word = e.words) : wholeExpr? seg = some e.reread := by
  refine wholeExpr?_of_operand (fun t member => ?_) fun _ _ passes =>
    operand_of_words literals passes spelled
  exact (e.printed_words t.word (spelled ▸ List.mem_map_of_mem member)).1

private theorem writesHead_of_words {w : Word}
    (literals : ∀ x ∈ e.literals, x.isFinite = true ∧ ¬ x < 0)
    (spelled : seg.map Token.word = Stmt.headWords w e) : WritesHead w.1 seg e.reread := by
  obtain ⟨word, _, rfl, isWord, -, spelled⟩ := cons_of_words spelled
  obtain ⟨opening, _, rfl, isOpening, -, spelled⟩ := cons_of_words spelled
  obtain ⟨inside, _, rfl, spelledInside, spelled⟩ := List.map_eq_append_iff.mp spelled
  obtain ⟨closing, rfl, isClosing, -⟩ := singleton_of_words spelled
  exact .mk isWord isOpening (wholeExpr?_of_words literals spelledInside) isClosing

private theorem writesLabel_of_words {v : Value} (finite : ∀ x, v = .num x → x.isFinite = true)
    (spelled : seg.map Token.word = v.words) : WritesLabel seg v.reread := by
  cases v with
  | bool b =>
      obtain ⟨t, rfl, kind, text⟩ := singleton_of_words spelled
      have value : (t.text == "true") = b := by rw [text]; cases b <;> decide
      simpa [Value.reread, value] using WritesLabel.truth kind
  | num x =>
      obtain ⟨negative, text, y, words, read, -, same, -⟩ := numberWords_finite (finite x rfl)
      rw [Value.words, words] at spelled
      rw [Value.reread, same]
      cases negative with
      | false =>
          obtain ⟨t, rfl, kind, rfl⟩ := singleton_of_words spelled
          exact .number kind read
      | true =>
          obtain ⟨dash, _, rfl, isDash, -, spelled⟩ := cons_of_words spelled
          obtain ⟨t, rfl, kind, rfl⟩ := singleton_of_words spelled
          exact .negative isDash kind read

/-- The words of a statement write what is read back. -/
def WrittenAs (s : Stmt) : Prop :=
  ∀ seg : List Token, seg.map Token.word = s.words → Writes seg s.reread

private theorem writesAll_of_words {body : List Stmt} (each : ∀ s ∈ body, WrittenAs s)
    (spelled : seg.map Token.word = Stmt.wordsAll body) : WritesAll seg (Stmt.rereadAll body) := by
  induction body generalizing seg with
  | nil =>
      obtain rfl := List.map_eq_nil_iff.mp spelled
      exact .nil
  | cons s body ih =>
      simp only [List.forall_mem_cons] at each
      obtain ⟨first, rest, rfl, spelledFirst, spelledRest⟩ := List.map_eq_append_iff.mp spelled
      exact .cons (each.1 first spelledFirst) (ih each.2 spelledRest)

private theorem writesCases_of_words {entries : List (Value × Stmt)}
    (labels : ∀ x, .num x ∈ entries.map Prod.fst → x.isFinite = true)
    (each : ∀ entry ∈ entries, WrittenAs entry.2)
    (spelled : seg.map Token.word = Stmt.wordsCases entries) :
    WritesCases seg (Stmt.rereadCases entries) := by
  induction entries generalizing seg with
  | nil =>
      obtain rfl := List.map_eq_nil_iff.mp spelled
      exact .nil
  | cons entry entries ih =>
      obtain ⟨v, s⟩ := entry
      simp only [List.forall_mem_cons] at each
      obtain ⟨word, _, rfl, isWord, -, spelled⟩ := cons_of_words spelled
      obtain ⟨label, _, rfl, spelledLabel, spelled⟩ := List.map_eq_append_iff.mp spelled
      obtain ⟨colon, _, rfl, isColon, -, spelled⟩ := cons_of_words spelled
      obtain ⟨body, rest, rfl, spelledBody, spelledRest⟩ := List.map_eq_append_iff.mp spelled
      refine .cons isWord (writesLabel_of_words ?_ spelledLabel) isColon
        (each.1 body spelledBody) (ih ?_ each.2 spelledRest)
      · rintro x rfl
        exact labels x (by simp)
      · exact fun x member => labels x (List.mem_cons_of_mem _ member)

private theorem writesFallback_of_words {fallback : Option Stmt}
    (each : ∀ s, fallback = some s → WrittenAs s)
    (spelled : seg.map Token.word = Stmt.wordsFallback fallback) :
    WritesFallback seg (Stmt.rereadOption fallback) := by
  cases fallback with
  | none =>
      obtain rfl := List.map_eq_nil_iff.mp spelled
      exact .none
  | some s =>
      obtain ⟨word, _, rfl, isWord, -, spelled⟩ := cons_of_words spelled
      obtain ⟨colon, body, rfl, isColon, -, spelled⟩ := cons_of_words spelled
      exact .some isWord isColon (each s rfl body spelled)

/-- A value and the semicolon behind it. -/
private theorem value_of_words (literals : ∀ x ∈ e.literals, x.isFinite = true ∧ ¬ x < 0)
    (spelled : seg.map Token.word = e.words ++ [(.semicolon, ";")]) :
    ∃ value stop, seg = value ++ [stop] ∧ wholeExpr? value = some e.reread ∧
      stop.kind = .semicolon := by
  obtain ⟨value, _, rfl, spelledValue, spelled⟩ := List.map_eq_append_iff.mp spelled
  obtain ⟨stop, rfl, isStop, -⟩ := singleton_of_words spelled
  exact ⟨value, stop, rfl, wholeExpr?_of_words literals spelledValue, isStop⟩

theorem writes_of_words (s : Stmt) (readable : s.Everywhere Stmt.Readable) : WrittenAs s := by
  induction s with
  | declare name e =>
      intro seg spelled
      obtain ⟨word, _, rfl, isWord, -, spelled⟩ := cons_of_words spelled
      obtain ⟨target, _, rfl, isName, text, spelled⟩ := cons_of_words spelled
      obtain ⟨equals, _, rfl, isEquals, -, spelled⟩ := cons_of_words spelled
      obtain ⟨value, stop, rfl, whole, isStop⟩ :=
        value_of_words (readable.here.written.literals e (by simp [Stmt.exprs])) spelled
      obtain rfl : target.text = name := text
      exact .declare isWord isName isEquals whole isStop
  | assign name e =>
      intro seg spelled
      obtain ⟨target, _, rfl, isName, text, spelled⟩ := cons_of_words spelled
      obtain ⟨equals, _, rfl, isEquals, -, spelled⟩ := cons_of_words spelled
      obtain ⟨value, stop, rfl, whole, isStop⟩ :=
        value_of_words (readable.here.written.literals e (by simp [Stmt.exprs])) spelled
      obtain rfl : target.text = name := text
      exact .assign isName isEquals whole isStop
  | print e =>
      intro seg spelled
      obtain ⟨word, _, rfl, isWord, -, spelled⟩ := cons_of_words spelled
      obtain ⟨value, stop, rfl, whole, isStop⟩ :=
        value_of_words (readable.here.written.literals e (by simp [Stmt.exprs])) spelled
      exact .print isWord whole isStop
  | block body ih =>
      intro seg spelled
      obtain ⟨opening, _, rfl, isOpening, -, spelled⟩ := cons_of_words spelled
      obtain ⟨inside, _, rfl, spelledInside, spelled⟩ := List.map_eq_append_iff.mp spelled
      obtain ⟨closing, rfl, isClosing, -⟩ := singleton_of_words spelled
      refine .block isOpening (writesAll_of_words ?_ spelledInside) isClosing
      intro s member
      exact ih s member (readable.part (.block member))
  | branch condition onTrue onFalse atTrue atFalse =>
      intro seg spelled
      obtain ⟨head, _, rfl, spelledHead, spelled⟩ := List.map_eq_append_iff.mp spelled
      obtain ⟨yes, rest, rfl, spelledYes, spelled⟩ := List.map_eq_append_iff.mp spelled
      have writtenHead : WritesHead .ifWord head condition.reread :=
        writesHead_of_words (readable.here.written.literals condition (by simp [Stmt.exprs])) spelledHead
      have writtenYes : Writes yes onTrue.reread :=
        atTrue (readable.part .onTrue) yes spelledYes
      cases onFalse with
      | none =>
          obtain rfl := List.map_eq_nil_iff.mp spelled
          rw [List.append_nil]
          exact .conditional writtenHead writtenYes
      | some s =>
          obtain ⟨other, no, rfl, isOther, -, spelledNo⟩ := cons_of_words spelled
          have writtenNo : Writes no s.reread :=
            atFalse s rfl (readable.part .onFalse) no
              spelledNo
          refine .alternative writtenHead writtenYes ?_ isOther writtenNo
          rw [Stmt.endsOpen_reread]
          exact readable.here.unambiguous _ _ _ rfl
  | loop condition body ih =>
      intro seg spelled
      obtain ⟨head, rest, rfl, spelledHead, spelledBody⟩ := List.map_eq_append_iff.mp spelled
      have writtenHead : WritesHead .whileWord head condition.reread :=
        writesHead_of_words (readable.here.written.literals condition (by simp [Stmt.exprs])) spelledHead
      exact .loop writtenHead (ih (readable.part .body) rest
        spelledBody)
  | switch focus cases fallback atCases atFallback =>
      intro seg spelled
      obtain ⟨entries, same⟩ := readable.here.keyed _ _ _ rfl
      obtain ⟨inserted⟩ := cases
      obtain ⟨head, _, rfl, spelledHead, spelled⟩ := List.map_eq_append_iff.mp spelled
      obtain ⟨opening, _, rfl, isOpening, -, spelled⟩ := cons_of_words spelled
      obtain ⟨clauses, _, rfl, spelledClauses, spelled⟩ := List.map_eq_append_iff.mp spelled
      obtain ⟨last, _, rfl, spelledLast, spelled⟩ := List.map_eq_append_iff.mp spelled
      obtain ⟨closing, rfl, isClosing, -⟩ := singleton_of_words spelled
      have writtenHead : WritesHead .switchWord head focus.reread :=
        writesHead_of_words (readable.here.written.literals focus (by simp [Stmt.exprs])) spelledHead
      have writtenCases : WritesCases clauses (Stmt.rereadCases inserted) := by
        refine writesCases_of_words readable.here.written.labels ?_ spelledClauses
        intro entry member
        exact atCases entry member (readable.part (.case member))
      have writtenLast : WritesFallback last (Stmt.rereadOption fallback) := by
        refine writesFallback_of_words ?_ spelledLast
        rintro s rfl
        exact atFallback s rfl (readable.part .fallback)
      -- The labels are different, so inserting the cases again keeps them as they are.
      have kept : Cases.ofList (Stmt.rereadCases inserted) = ⟨Stmt.rereadCases inserted⟩ := by
        refine Cases.ofList_eq_of_distinct (Stmt.distinct_rereadCases ?_)
        have distinct := Cases.distinct_ofList entries
        rwa [← same] at distinct
      rw [Stmt.reread, ← kept]
      exact .switch writtenHead isOpening writtenCases writtenLast isClosing

end Grammar
end Scriptlet
