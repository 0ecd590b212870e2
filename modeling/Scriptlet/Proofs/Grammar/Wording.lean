import Scriptlet.Program
import Scriptlet.Proofs.Grammar.Levels
import Scriptlet.Proofs.Token.Spelling

/-!
# A parser sees words

The kind and the text of a token decide what a parser does; its place shows in errors
only. `Parser.Agree` says so of two runs on the same words: they end with the same
value and the same words ahead, or with errors of the same cause, each of which has the
place of the token at which its run stopped. The rules for sequences and for choices by
the next kind carry it through every form and every level of the grammar.
-/

namespace Scriptlet

namespace Cursor

/-- Two cursors with the same words ahead. -/
structure SameWords (c d : Cursor) : Prop where
  ahead : c.ahead.map Token.word = d.ahead.map Token.word
  final : c.final.word = d.final.word

namespace SameWords

variable {c d : Cursor}

theorem refl (c : Cursor) : c.SameWords c := ⟨rfl, rfl⟩

theorem current (same : c.SameWords d) : c.current.word = d.current.word := by
  obtain ⟨ahead, final⟩ := same
  unfold Cursor.current
  cases inC : c.ahead with
  | nil =>
      rw [inC, List.map_nil, eq_comm, List.map_eq_nil_iff] at ahead
      simpa [ahead] using final
  | cons t rest =>
      rw [inC, List.map_cons, eq_comm, List.map_eq_cons_iff] at ahead
      obtain ⟨u, others, inD, word, -⟩ := ahead
      simpa [inD] using word.symm

theorem kind (same : c.SameWords d) : c.kind = d.kind := congrArg Prod.fst same.current

theorem advance (same : c.SameWords d) : c.advance.SameWords d.advance := by
  refine ⟨?_, same.final⟩
  simp only [Cursor.advance, List.map_tail, same.ahead]

theorem length_ahead (same : c.SameWords d) : c.ahead.length = d.ahead.length := by
  simpa using congrArg List.length same.ahead

end SameWords

/-- Streams of the same words start with the same words ahead. -/
theorem sameWords_ofTokens {tokens tokens' : List Token}
    (same : tokens.map Token.word = tokens'.map Token.word) :
    (ofTokens tokens).SameWords (ofTokens tokens') := by
  rcases tokens.eq_nil_or_concat with rfl | ⟨before, t, rfl⟩
  · obtain rfl := List.map_eq_nil_iff.mp same.symm
    exact .refl _
  · rw [List.concat_eq_append, List.map_append, eq_comm, List.map_eq_append_iff] at same
    obtain ⟨before', last, rfl, sameBefore, sameLast⟩ := same
    obtain ⟨u, rfl, word⟩ := List.map_eq_singleton_iff.mp sameLast
    have kinds : u.kind = t.kind := congrArg Prod.fst word
    simp only [ofTokens, List.concat_eq_append, List.getLast?_append, List.getLast?_singleton,
      Option.some_or, List.dropLast_concat, kinds]
    split
    · exact ⟨sameBefore.symm, word.symm⟩
    · exact ⟨by simp [sameBefore, word], rfl⟩

end Cursor

namespace Parser

open Cursor (SameWords)

variable {α β : Type} {rel : α → α → Prop} {rel' : β → β → Prop}

/-- Two outcomes on the same words: related values and the same words ahead, or errors
of the same cause, each at the token where its cursor stands. -/
inductive Outcomes (rel : α → α → Prop) :
    Except SyntaxError α × Cursor → Except SyntaxError α × Cursor → Prop
  | done {a b : α} {c d : Cursor} :
      rel a b → c.SameWords d → Outcomes rel (.ok a, c) (.ok b, d)
  | failed {e e' : SyntaxError} {c d : Cursor} :
      e.cause = e'.cause → e.position = c.position → e'.position = d.position →
      Outcomes rel (.error e, c) (.error e', d)

/-- On the same words the two parsers end alike. -/
def Agree (rel : α → α → Prop) (x y : Parser α) : Prop :=
  ∀ c d : Cursor, c.SameWords d → Outcomes rel (x c) (y d)

/-- Tokens that differ in their places only. -/
abbrev SameWord (t u : Token) : Prop := t.word = u.word

variable {x y : Parser α} {f g : α → Parser β}

theorem agree_pure {a b : α} (same : rel a b) : Agree rel (pure a) (pure b) :=
  fun _ _ words => .done same words

theorem Agree.bind (first : Agree rel x y) (next : ∀ a b, rel a b → Agree rel' (f a) (g b)) :
    Agree rel' (x >>= f) (y >>= g) := by
  intro c d words
  have outcomes := first c d words
  rw [Attempt.bind_apply, Attempt.bind_apply]
  generalize x c = one at outcomes ⊢
  generalize y d = other at outcomes ⊢
  cases outcomes with
  | done same words => exact next _ _ same _ _ words
  | failed cause here here' => exact .failed cause here here'

/-- After a step with equal values the rest has to agree on each value only. -/
theorem Agree.bindEq (first : Agree Eq x y) (next : ∀ a, Agree rel' (f a) (g a)) :
    Agree rel' (x >>= f) (y >>= g) := by
  refine first.bind fun a b same => ?_
  subst same
  exact next a

theorem agree_kind {f g : TokenKind → Parser α} (each : ∀ k, Agree rel (f k) (g k)) :
    Agree rel (kind >>= f) (kind >>= g) := by
  intro c d words
  rw [kind_bind_apply, kind_bind_apply, words.kind]
  exact each _ c d words

/-- Verdicts on tokens of the same word: related values, or errors of the same cause,
each at its token. -/
inductive Verdicts (rel : α → α → Prop) (t u : Token) :
    Except SyntaxError α → Except SyntaxError α → Prop
  | accept {a b : α} : rel a b → Verdicts rel t u (.ok a) (.ok b)
  | reject (cause : String → SyntaxCause) : SameWord t u →
      Verdicts rel t u (.error ⟨cause t.text, t.span.start⟩) (.error ⟨cause u.text, u.span.start⟩)

theorem agree_judged {judge : Token → Except SyntaxError α}
    (alike : ∀ t u, SameWord t u → Verdicts rel t u (judge t) (judge u)) :
    Agree rel (judged judge) (judged judge) := by
  intro c d words
  have verdicts := alike c.current d.current words.current
  unfold judged
  generalize judge c.current = one at verdicts ⊢
  generalize judge d.current = other at verdicts ⊢
  cases verdicts with
  | accept same => exact .done same words.advance
  | reject cause same => exact .failed (congrArg (cause ·.2) same) rfl rfl

theorem agree_take : Agree SameWord take take := by
  rw [take_eq]
  exact agree_judged fun t u same => .accept same

theorem agree_refuse : Agree rel (refuse : Parser α) refuse := by
  rw [refuse_eq]
  exact agree_judged fun t u same => .reject .unexpected same

theorem agree_refuseFor (message : String) :
    Agree rel (refuseFor message : Parser α) (refuseFor message) := by
  rw [refuseFor_eq]
  exact agree_judged fun t u same => .reject (.unexpectedFor · message) same

/-- A token of one kind is wanted. -/
private theorem verdicts_of_kind (k : TokenKind) (cause : String → SyntaxCause) {t u : Token}
    (same : SameWord t u) :
    Verdicts SameWord t u (if t.kind = k then .ok t else .error ⟨cause t.text, t.span.start⟩)
      (if u.kind = k then .ok u else .error ⟨cause u.text, u.span.start⟩) := by
  have kinds : t.kind = u.kind := congrArg Prod.fst same
  by_cases found : u.kind = k
  · rw [if_pos (kinds.trans found), if_pos found]
    exact .accept same
  · rw [if_neg (kinds ▸ found), if_neg found]
    exact .reject cause same

theorem agree_expect (k : TokenKind) : Agree SameWord (expect k) (expect k) := by
  rw [expect_eq]
  exact agree_judged fun t u same => verdicts_of_kind k .unexpected same

theorem agree_expectFor (k : TokenKind) (message : String) :
    Agree SameWord (expectFor k message) (expectFor k message) := by
  rw [expectFor_eq]
  exact agree_judged fun t u same => verdicts_of_kind k (.unexpectedFor · message) same

end Parser

namespace Grammar

open Scriptlet.Parser

/-- On the same words each part of the grammar reads the same. -/
structure SeesWords (g : Grammar) : Prop where
  expr : ∀ power, Agree Eq (g.expr power) (g.expr power)
  operators : ∀ power left, Agree Eq (g.operators power left) (g.operators power left)
  stmt : Agree Eq g.stmt g.stmt
  stmts : ∀ inBlock done, Agree Eq (g.stmts inBlock done) (g.stmts inBlock done)
  clauses : ∀ cases fallback, Agree Eq (g.clauses cases fallback) (g.clauses cases fallback)

theorem agree_numeral : Agree Eq numeral numeral := by
  rw [numeral_eq]
  refine agree_judged fun t u same => ?_
  have texts : t.text = u.text := congrArg Prod.snd same
  cases read : Decimal.read? u.text.toList with
  | some x =>
      rw [texts, read]
      exact .accept rfl
  | none =>
      rw [show Decimal.read? t.text.toList = none from texts ▸ read]
      exact .reject .badNumber same

theorem agree_typeName : Agree Eq typeName typeName := by
  rw [typeName_eq]
  refine agree_judged fun t u same => ?_
  have kinds : t.kind = u.kind := congrArg Prod.fst same
  have texts : t.text = u.text := congrArg Prod.snd same
  rw [kinds]
  split
  · cases found : Ty.ofName? u.text with
    | some ty =>
        rw [texts, found]
        exact .accept rfl
    | none =>
        rw [show Ty.ofName? t.text = none from texts ▸ found]
        exact .reject .unknownType same
  · exact .reject (.unexpectedFor · "expected a type name") same

theorem agree_truthValue : Agree Eq truthValue truthValue := by
  refine agree_take.bind fun t u same => agree_pure ?_
  rw [show t.text = u.text from congrArg Prod.snd same]

theorem agree_primary : Agree Eq primary primary := by
  refine agree_kind fun k => ?_
  split
  · exact agree_numeral.bindEq fun x => agree_pure rfl
  · exact agree_truthValue.bindEq fun b => agree_pure rfl
  · exact agree_take.bind fun t u same => agree_pure (congrArg (Expr.var ·.2) same)
  · exact agree_refuse

theorem agree_inputRead : Agree Eq inputRead inputRead := by
  refine agree_take.bind fun _ _ _ => ?_
  refine (agree_expect .less).bind fun _ _ _ => agree_typeName.bindEq fun ty => ?_
  exact (agree_expect .greater).bind fun _ _ _ => agree_pure rfl

theorem agree_unsignedLabel (negative : Bool) :
    Agree Eq (unsignedLabel negative) (unsignedLabel negative) := by
  refine agree_kind fun k => ?_
  split
  · exact agree_numeral.bindEq fun x => agree_pure rfl
  · split
    · exact agree_refuseFor _
    · exact agree_truthValue.bindEq fun b => agree_pure rfl
  · exact agree_refuseFor _

theorem agree_label : Agree Eq label label := by
  rw [label_eq]
  refine agree_kind fun k => ?_
  split
  · exact agree_take.bind fun _ _ _ => agree_unsignedLabel true
  · exact agree_unsignedLabel false

section

variable {g : Grammar} (sees : g.SeesWords)
include sees

theorem agree_unary : Agree Eq g.unary g.unary := by
  refine agree_kind fun k => ?_
  split
  · refine agree_take.bind fun _ _ _ => ?_
    exact (sees.expr _).bindEq fun e => agree_pure rfl
  · exact agree_refuse

theorem agree_grouping : Agree Eq g.grouping g.grouping := by
  refine agree_take.bind fun _ _ _ => (sees.expr _).bindEq fun e => ?_
  exact (agree_expect _).bind fun _ _ _ => agree_pure rfl

theorem agree_operand : Agree Eq g.operand g.operand := by
  refine agree_kind fun k => ?_
  split
  · exact agree_primary
  · exact agree_primary
  · exact agree_primary
  · exact agree_inputRead
  · exact agree_unary sees
  · exact agree_unary sees
  · exact agree_grouping sees
  · exact agree_refuse

theorem agree_binary (left : Expr) (power : Power) :
    Agree Eq (g.binary left power) (g.binary left power) := by
  refine agree_kind fun k => ?_
  split
  · refine agree_take.bind fun _ _ _ => ?_
    exact (sees.expr _).bindEq fun e => agree_pure rfl
  · exact agree_refuse

theorem agree_operatorsForm (power : Power) (left : Expr) :
    Agree Eq (g.operatorsForm power left) (g.operatorsForm power left) := by
  refine agree_kind fun k => ?_
  split
  · split
    · exact (agree_binary sees left _).bindEq fun e => sees.operators power e
    · exact agree_pure rfl
  · exact agree_pure rfl

theorem agree_exprForm (power : Power) : Agree Eq (g.exprForm power) (g.exprForm power) :=
  (agree_operand sees).bindEq fun e => sees.operators power e

theorem agree_parenthesized : Agree Eq g.parenthesized g.parenthesized := by
  refine (agree_expect _).bind fun _ _ _ => (sees.expr _).bindEq fun e => ?_
  exact (agree_expect _).bind fun _ _ _ => agree_pure rfl

/-- The end of a simple statement: an expression and a semicolon. -/
private theorem agree_value (result result' : Expr → Stmt) (same : ∀ e, result e = result' e) :
    Agree Eq (do let e ← g.expr .lowest; let _ ← expect .semicolon; return result e)
      (do let e ← g.expr .lowest; let _ ← expect .semicolon; return result' e) := by
  refine (sees.expr _).bindEq fun e => ?_
  exact (agree_expect _).bind fun _ _ _ => agree_pure (same e)

theorem agree_declaration : Agree Eq g.declaration g.declaration := by
  refine agree_take.bind fun _ _ _ => (agree_expectFor _ _).bind fun name name' same => ?_
  refine (agree_expect _).bind fun _ _ _ => agree_value sees _ _ fun e => ?_
  exact congrArg (Stmt.declare ·.2 e) same

theorem agree_assignment : Agree Eq g.assignment g.assignment := by
  refine (agree_expectFor _ _).bind fun name name' same => ?_
  refine (agree_expectFor _ _).bind fun _ _ _ => agree_value sees _ _ fun e => ?_
  exact congrArg (Stmt.assign ·.2 e) same

theorem agree_printing : Agree Eq g.printing g.printing :=
  agree_take.bind fun _ _ _ => agree_value sees _ _ fun _ => rfl

theorem agree_block : Agree Eq g.block g.block := by
  refine agree_take.bind fun _ _ _ => (sees.stmts _ _).bindEq fun body => ?_
  exact (agree_expect _).bind fun _ _ _ => agree_pure rfl

theorem agree_conditional : Agree Eq g.conditional g.conditional := by
  refine agree_take.bind fun _ _ _ => (agree_parenthesized sees).bindEq fun condition => ?_
  refine sees.stmt.bindEq fun yes => agree_kind fun k => ?_
  split
  · exact agree_take.bind fun _ _ _ => sees.stmt.bindEq fun no => agree_pure rfl
  · exact agree_pure rfl

theorem agree_looping : Agree Eq g.looping g.looping := by
  refine agree_take.bind fun _ _ _ => (agree_parenthesized sees).bindEq fun condition => ?_
  exact sees.stmt.bindEq fun body => agree_pure rfl

theorem agree_switching : Agree Eq g.switching g.switching := by
  refine agree_take.bind fun _ _ _ => (agree_parenthesized sees).bindEq fun focus => ?_
  refine (agree_expect _).bind fun _ _ _ => (sees.clauses _ _).bindEq fun clauses => ?_
  exact (agree_expect _).bind fun _ _ _ => agree_pure rfl

theorem agree_clausesForm (cases : Cases Stmt) (fallback : Option Stmt) :
    Agree Eq (g.clausesForm cases fallback) (g.clausesForm cases fallback) := by
  refine agree_kind fun k => ?_
  split
  · split
    · exact agree_refuseFor _
    · refine agree_take.bind fun _ _ _ => agree_label.bindEq fun value => ?_
      refine (agree_expect _).bind fun _ _ _ => sees.stmt.bindEq fun body => ?_
      exact sees.clauses (cases.insert value body) fallback
  · split
    · exact agree_refuseFor _
    · refine agree_take.bind fun _ _ _ => (agree_expect _).bind fun _ _ _ => ?_
      exact sees.stmt.bindEq fun body => sees.clauses cases (some body)
  · exact agree_pure rfl
  · exact agree_refuseFor _

theorem agree_stmtForm : Agree Eq g.stmtForm g.stmtForm := by
  refine agree_kind fun k => ?_
  split
  · exact agree_declaration sees
  · exact agree_assignment sees
  · exact agree_printing sees
  · exact agree_block sees
  · exact agree_conditional sees
  · exact agree_looping sees
  · exact agree_switching sees
  · exact agree_refuseFor _

theorem agree_stmtsForm (inBlock : Bool) (done : Array Stmt) :
    Agree Eq (g.stmtsForm inBlock done) (g.stmtsForm inBlock done) := by
  refine agree_kind fun k => ?_
  split
  · exact agree_pure rfl
  · exact (agree_stmtForm sees).bindEq fun s => sees.stmts inBlock (done.push s)

theorem SeesWords.extend : g.extend.SeesWords where
  expr := agree_exprForm sees
  operators := agree_operatorsForm sees
  stmt := agree_stmtForm sees
  stmts := agree_stmtsForm sees
  clauses := agree_clausesForm sees

end

theorem seesWords_empty : empty.SeesWords where
  expr _ := agree_refuse
  operators _ _ := agree_refuse
  stmt := agree_refuseFor _
  stmts _ _ := agree_refuseFor _
  clauses _ _ := agree_refuse

theorem seesWords_nested (depth : Nat) : (nested depth).SeesWords := by
  induction depth with
  | zero => exact seesWords_empty
  | succ depth ih => exact ih.extend

/-- The statements of a stream are read alike on the same words. -/
theorem outcomes_stmts {c d : Cursor} (same : c.SameWords d) :
    Outcomes Eq (full.stmts false #[] c) (full.stmts false #[] d) := by
  have read := (seesWords_nested (c.ahead.length + 1)).stmts false #[] c d same
  change Outcomes Eq ((forCursor c).stmts false #[] c) ((forCursor d).stmts false #[] d)
  rwa [forCursor, forCursor, ← same.length_ahead]

/-- An error has the place of the token at which the parser stopped. -/
theorem position_of_stmts {c d : Cursor} {e : SyntaxError}
    (failed : full.stmts false #[] c = (.error e, d)) : e.position = d.position := by
  have outcomes := outcomes_stmts (.refl c)
  rw [failed] at outcomes
  cases outcomes with
  | failed _ here _ => exact here

end Grammar

namespace Program

/-- Streams of the same words write the same program, or fail for the same cause. -/
theorem ofTokens_congr {tokens tokens' : List Token}
    (same : tokens.map Token.word = tokens'.map Token.word) :
    (ofTokens tokens).mapError SyntaxError.cause =
      (ofTokens tokens').mapError SyntaxError.cause := by
  have outcomes := Grammar.outcomes_stmts (Cursor.sameWords_ofTokens same)
  change ((Grammar.full.stmts false #[] (.ofTokens tokens)).1.map Stmt.block).mapError _ =
    ((Grammar.full.stmts false #[] (.ofTokens tokens')).1.map Stmt.block).mapError _
  generalize Grammar.full.stmts false #[] (.ofTokens tokens) = one at outcomes ⊢
  generalize Grammar.full.stmts false #[] (.ofTokens tokens') = other at outcomes ⊢
  cases outcomes with
  | done equal => rw [equal]
  | failed cause => exact congrArg Except.error cause

end Program
end Scriptlet
