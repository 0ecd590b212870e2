import Scriptlet.Proofs.Grammar.Precedence
import Scriptlet.Proofs.Program.Faults

/-!
# Progress of the parser

Every statement and every expression that is read passes a token, and no part of the grammar
passes the first end of input, whether it succeeds or fails. So a part has no more rounds and
no more levels inside it than there are tokens up to that end: with one level more, whatever
grammar lies below is never asked (`Part.parser_repeat`). What lies behind the first end of
input is not read either, be it tokens or the last token given once more to a cursor that ran
off the stream (`Part.parser_congr`).
-/

namespace Scriptlet

namespace Token

/-- The position of the first end of input. -/
def firstEnd (tokens : List Token) : Nat := (closed tokens).findIdx (·.kind == .eof)

theorem firstEnd_eq (tokens : List Token) : firstEnd tokens = (beforeEnd tokens).length := by
  have isFinal := (Cursor.ofTokens tokens).final_kind
  have same : beforeEnd (closed tokens) = beforeEnd tokens := by
    rw [← Cursor.ahead_ofTokens, (Cursor.beforeEnd_append_end isFinal _).1,
      Cursor.beforeEnd_ofTokens]
  rw [← same, beforeEnd, List.takeWhile_eq_take_findIdx_not, List.length_take,
    Nat.min_eq_left List.findIdx_le_length]
  simp only [firstEnd, bne, Bool.not_not]

end Token

namespace Cursor

open Token (beforeEnd closed firstEnd)

variable {tokens tokens' seg : List Token} {i j : Nat} {d : Cursor}

theorem atIndex_zero (tokens : List Token) : atIndex tokens 0 = ofTokens tokens := by
  unfold atIndex ofTokens
  split
  · rfl
  · split <;> rfl

/-- A position up to the first end of input is reached from the start. -/
theorem passes_to_atIndex (inside : i ≤ firstEnd tokens) :
    ∃ seg, seg.length = i ∧ (ofTokens tokens).Passes seg (atIndex tokens i) := by
  rw [Token.firstEnd_eq] at inside
  obtain ⟨d, toEnd, -⟩ := (ofTokens tokens).exists_passes_beforeEnd
  rw [beforeEnd_ofTokens, ← List.take_append_drop i (beforeEnd tokens)] at toEnd
  obtain ⟨m, passes, -⟩ := toEnd.split
  have length : ((beforeEnd tokens).take i).length = i := by
    rw [List.length_take, Nat.min_eq_left inside]
  refine ⟨_, length, ?_⟩
  rw [← atIndex_zero] at passes ⊢
  have reached := eq_atIndex_of_passes passes
  rw [Nat.zero_add, length] at reached
  exact reached ▸ passes

/-- What is passed from the start does not go beyond the first end of input. -/
theorem length_le_firstEnd (passes : (ofTokens tokens).Passes seg d) :
    seg.length ≤ firstEnd tokens := by
  rw [Token.firstEnd_eq, ← beforeEnd_ofTokens, passes.beforeEnd_ahead, List.length_append]
  omega

/-- Behind what is passed from the start stands a token of the stream itself. -/
theorem closed_getElem?_of_passes (passes : (ofTokens tokens).Passes seg d) :
    (closed tokens)[seg.length]? = some d.current := by
  obtain ⟨rest, stream⟩ := passes.exists_stream_eq
  rw [ahead_ofTokens] at stream
  rw [stream, List.getElem?_append_right (Nat.le_refl _), Nat.sub_self, List.getElem?_cons_zero]

/-- Streams with the same tokens up to some position are passed alike up to it, and there
stands the same token. -/
theorem exists_passes_of_take (passes : (ofTokens tokens).Passes seg d) (before : seg.length ≤ j)
    (same : (closed tokens').take (j + 1) = (closed tokens).take (j + 1)) :
    ∃ d', (ofTokens tokens').Passes seg d' ∧ d'.current = d.current := by
  obtain ⟨rest, stream⟩ := passes.exists_stream_eq
  rw [ahead_ofTokens] at stream
  have front : (closed tokens').take (seg.length + 1) = seg ++ [d.current] := by
    have shorter := congrArg (List.take (seg.length + 1)) same
    rw [List.take_take, List.take_take, Nat.min_eq_left (by omega)] at shorter
    rw [shorter, stream, List.take_length_add_append]
    rfl
  have stream' : (ofTokens tokens').ahead ++ [(ofTokens tokens').final] =
      seg ++ d.current :: (closed tokens').drop (seg.length + 1) := by
    rw [ahead_ofTokens, ← List.singleton_append, ← List.append_assoc, ← front,
      List.take_append_drop]
  exact exists_passes_of_stream stream' passes.unended

end Cursor

namespace Grammar

open Scriptlet.Parser (Anywhere Takes)
open Token (closed firstEnd)

/-- The parts of a grammar: expressions and statements, and the loops over operators,
statements and clauses. -/
inductive Part : Type → Type
  | expr (power : Power) : Part Expr
  | operators (power : Power) (left : Expr) : Part Expr
  | stmt : Part Stmt
  | stmts (inBlock : Bool) (done : Array Stmt) : Part (List Stmt)
  | clauses (cases : Cases Stmt) (fallback : Option Stmt) : Part (Cases Stmt × Option Stmt)

namespace Part

variable {α : Type}

/-- How a grammar reads a part. -/
def parser (g : Grammar) : Part α → Parser α
  | .expr power => g.expr power
  | .operators power left => g.operators power left
  | .stmt => g.stmt
  | .stmts inBlock done => g.stmts inBlock done
  | .clauses cases fallback => g.clauses cases fallback

/-- Whether a part is a loop, which may end without a round. -/
def isLoop : Part α → Bool
  | .expr _ | .stmt => false
  | .operators _ _ | .stmts _ _ | .clauses _ _ => true

variable {g g' : Grammar} {depth : Nat} {c c' d d' : Cursor} {seg : List Token}
variable {result : Except SyntaxError α}

theorem leads (leads : g.Leads depth g') (part : Part α) :
    Parser.Leads depth Anywhere Eq (part.parser g) (part.parser g') := by
  cases part with
  | expr power => exact leads.exprEq power
  | operators power left =>
      exact (leads.operators power left).mono (Nat.le_refl depth) fun _ _ equal => .inl equal
  | stmt => exact leads.stmt
  | stmts inBlock done => exact leads.stmts inBlock done
  | clauses cases fallback => exact leads.clauses cases fallback

theorem parser_full (part : Part α) (c : Cursor) :
    part.parser full c = part.parser (forCursor c) c := by
  cases part <;> rfl

/-- A part passes tokens, whether it succeeds or fails. -/
theorem exists_passes (part : Part α) (ran : part.parser (forCursor c) c = (result, d)) :
    ∃ seg, c.Passes seg d := by
  rw [← parser_full] at ran
  exact (part.leads (leads_full 0)).moves.passes trivial ran

/-- What is no loop passes a token if it succeeds. -/
theorem passed_lt (part : Part α) (whole : part.isLoop = false) {a : α}
    (ran : part.parser (forCursor c) c = (.ok a, d)) : c.passed < d.passed := by
  rw [← parser_full] at ran
  cases part with
  | expr power =>
      refine (takes_exprForm (leads_full 0) power).advances c a d trivial ?_
      rw [← full_expr]
      exact ran
  | stmt =>
      have takes : Takes 1 Anywhere Eq full.stmtForm full.stmtForm := takes_stmtForm (leads_full 0)
      refine takes.advances c a d trivial ?_
      rw [← full_stmt]
      exact ran
  | operators => cases whole
  | stmts => cases whole
  | clauses => cases whole

private theorem alike_of_current {result : Except SyntaxError α} (same : d'.current = d.current) :
    Parser.Alike Eq result d d' := by
  cases result with
  | ok a => exact congrArg Token.kind same.symm
  | error e => exact same.symm

/-- With more levels than tokens are passed, a part never asks the grammar below them. -/
theorem parser_repeat (part : Part α) (ran : part.parser (forCursor c) c = (result, d))
    (passes : c.Passes seg d) {n : Nat} (enough : seg.length < n) (g : Grammar) :
    part.parser (Nat.repeat extend n g) c = (result, d) := by
  have ahead := passes.length_ahead
  exact (part.leads (leads_repeat (c.ahead.length + 1) n g)).follows c c d d seg result trivial
    trivial (by omega) ran passes passes (alike_of_current rfl)

/-- A part reads alike wherever the same tokens lie ahead, up to the one at which it stops. -/
theorem parser_congr (part : Part α) (ran : part.parser (forCursor c) c = (result, d))
    (passes : c.Passes seg d) (passes' : c'.Passes seg d') (same : d'.current = d.current) :
    part.parser (forCursor c') c' = (result, d') := by
  rw [← parser_full] at ran ⊢
  exact (part.leads (leads_full (seg.length + 1))).follows c c' d d' seg result trivial trivial
    (Nat.lt_succ_self _) ran passes passes' (alike_of_current same)

end Part

/-- The parser makes progress and stays inside its stream. From a position up to the first
end of input, every part of the grammar stops at a later or the same position up to that end,
and at a later one if it is a statement or an expression and was read. It stops at a token of
the stream itself. Its rounds and levels are no more than the tokens up to the first end, so
that whatever grammar lies below that many is not asked. And it does the same in every stream
with the same tokens up to the first end: nothing behind that end is read. -/
theorem part_progress {tokens : List Token} {i : Nat} (inside : i ≤ firstEnd tokens) {α : Type}
    (part : Part α) :
    let c := Cursor.atIndex tokens i
    ∃ result j, part.parser (forCursor c) c = (result, .atIndex tokens j) ∧
      i ≤ j ∧ j ≤ firstEnd tokens ∧
      (part.isLoop = false → (∃ a, result = .ok a) → i < j) ∧
      (closed tokens)[j]? = some (Cursor.atIndex tokens j).current ∧
      (∀ n g, firstEnd tokens - i < n →
        part.parser (Nat.repeat extend n g) c = (result, .atIndex tokens j)) ∧
      ∀ tokens', (closed tokens').take (firstEnd tokens + 1) =
          (closed tokens).take (firstEnd tokens + 1) →
        part.parser (forCursor (.atIndex tokens' i)) (.atIndex tokens' i) =
          (result, .atIndex tokens' j) := by
  intro c
  rcases ran : part.parser (forCursor c) c with ⟨result, d⟩
  obtain ⟨seg, passes⟩ := part.exists_passes ran
  obtain rfl := Cursor.eq_atIndex_of_passes passes
  obtain ⟨front, length, toStart⟩ := Cursor.passes_to_atIndex inside
  have whole := toStart.trans passes
  have bound := Cursor.length_le_firstEnd whole
  rw [List.length_append, length] at bound
  refine ⟨result, i + seg.length, rfl, by omega, bound, ?_, ?_, ?_, ?_⟩
  · rintro call ⟨a, rfl⟩
    exact part.passed_lt call ran
  · have atToken := Cursor.closed_getElem?_of_passes whole
    rwa [List.length_append, length] at atToken
  · intro n g enough
    exact part.parser_repeat ran passes (by omega) g
  · intro tokens' same
    obtain ⟨d', whole', here⟩ := Cursor.exists_passes_of_take whole
      (by rwa [List.length_append, length]) same
    obtain ⟨c', toStart', passes'⟩ := whole'.split
    rw [← Cursor.atIndex_zero] at toStart'
    obtain rfl := Cursor.eq_atIndex_of_passes toStart'
    rw [length, Nat.zero_add] at passes'
    obtain rfl := Cursor.eq_atIndex_of_passes passes'
    exact part.parser_congr ran passes passes' here

/-- The tokens of a block that is closed only behind an end of input. -/
def lateClosing : List Token :=
  [(.openCurly, "\x7b"), (.printWord, "print"), (.boolean, "true"), (.semicolon, ";"),
    (.eof, "EOF"), (.closeCurly, "\x7d")].map fun (kind, text) => ⟨kind, text, ⟨.null, .null⟩⟩

/-- The block fails at the end of input, and the statement in it is read up to there. -/
theorem lateClosing_progress :
    let block := Cursor.atIndex lateClosing 0
    let inner := Cursor.atIndex lateClosing 1
    firstEnd lateClosing = 4 ∧
    (∃ j, (forCursor block).stmt block =
      (.error ⟨.unexpected "EOF", .null⟩, .atIndex lateClosing j) ∧ j ≤ 4) ∧
    ∃ j, (forCursor inner).stmt inner = (.ok (.print (.bool true)), .atIndex lateClosing j) ∧
      1 < j ∧ j ≤ 4 := by
  intro block inner
  have ended : firstEnd lateClosing = 4 := by decide
  have failed : ((forCursor block).stmt block).1 = .error ⟨.unexpected "EOF", .null⟩ := by rfl
  have read : ((forCursor inner).stmt inner).1 = .ok (.print (.bool true)) := by rfl
  refine ⟨ended, ?_, ?_⟩
  · have inside : 0 ≤ firstEnd lateClosing := by omega
    obtain ⟨result, j, ran, -, before, -⟩ := part_progress inside .stmt
    obtain rfl : result = _ := (congrArg Prod.fst ran).symm.trans failed
    exact ⟨j, ran, ended ▸ before⟩
  · have inside : 1 ≤ firstEnd lateClosing := by omega
    obtain ⟨result, j, ran, -, before, later, -⟩ := part_progress inside .stmt
    obtain rfl : result = _ := (congrArg Prod.fst ran).symm.trans read
    exact ⟨j, ran, later rfl ⟨_, rfl⟩, ended ▸ before⟩

end Grammar
end Scriptlet
