import Scriptlet.Proofs.Grammar.Statements

/-!
# The programs that are accepted

What the statement grammar writes is read, unless an `else` follows that the
statement would take. Together with the other direction, `Program.ofTokens` accepts
exactly the sequences of statements that the grammar writes, up to the first end of
input, and sees nothing behind it.
-/

namespace Scriptlet

namespace Token

/-- The tokens before the first end of input. -/
def beforeEnd (tokens : List Token) : List Token := tokens.takeWhile (·.kind != .eof)

/-- The tokens from the first end of input on. -/
def fromEnd (tokens : List Token) : List Token := tokens.dropWhile (·.kind != .eof)

theorem beforeEnd_append_fromEnd (tokens : List Token) :
    beforeEnd tokens ++ fromEnd tokens = tokens := List.takeWhile_append_dropWhile

theorem unended_beforeEnd {tokens : List Token} : ∀ t ∈ beforeEnd tokens, t.kind ≠ .eof := by
  intro t inside
  simpa using List.all_eq_true.mp List.all_takeWhile t inside

theorem ended_fromEnd {tokens rest : List Token} {t : Token} (split : fromEnd tokens = t :: rest) :
    t.kind = .eof := by
  have ended := List.head?_dropWhile_not (·.kind != .eof) tokens
  rw [← fromEnd, split] at ended
  simpa using ended

/-- A stream is cut in one place only. -/
theorem cut_append {before : List Token} (unended : ∀ t ∈ before, t.kind ≠ .eof) {t : Token}
    (ended : t.kind = .eof) (rest : List Token) :
    beforeEnd (before ++ t :: rest) = before ∧ fromEnd (before ++ t :: rest) = t :: rest := by
  have inside : ∀ t ∈ before, (t.kind != .eof) = true := by simpa using unended
  unfold beforeEnd fromEnd
  rw [List.takeWhile_append_of_pos inside, List.dropWhile_append_of_pos inside]
  simp [ended]

end Token

namespace Grammar

open Cursor (Passes)
open Scriptlet.Parser
open Token (beforeEnd fromEnd)

variable {c d : Cursor} {seg : List Token}

/-- A written statement starts with a token that is not what may stand behind one. -/
theorem Writes.starts {s : Stmt} (written : Writes seg s) (passes : c.Passes seg d) :
    c.kind ∉ [.eof, .closeCurly, .elseWord] := by
  cases written with
  | declare isWord => simp [passes.kind_eq, isWord]
  | assign isName => simp [passes.kind_eq, isName]
  | print isWord => simp [passes.kind_eq, isWord]
  | block isOpening => simp [passes.kind_eq, isOpening]
  | conditional head | alternative head | loop head | switch head =>
      obtain ⟨isWord, -⟩ := head
      simp [passes.kind_eq, isWord]

theorem WritesAll.notElse {body : List Stmt} (written : WritesAll seg body)
    (passes : c.Passes seg d) (behind : d.kind ≠ .elseWord) : c.kind ≠ .elseWord := by
  cases written with
  | nil => rwa [← passes.eq_of_nil]
  | cons first =>
      obtain ⟨m, passes₁, -⟩ := passes.split
      have start := first.starts passes₁
      simp_all

theorem WritesCases.notElse {entries : List (Value × Stmt)} (written : WritesCases seg entries)
    (passes : c.Passes seg d) (behind : d.kind ≠ .elseWord) : c.kind ≠ .elseWord := by
  cases written with
  | nil => rwa [← passes.eq_of_nil]
  | cons isWord => simp [passes.kind_eq, isWord]

private theorem reads_value {m : Cursor} {value : List Token} {stop : Token} {e : Expr}
    {k : TokenKind} (first : c.Passes value m) (second : m.Passes [stop] d)
    (whole : wholeExpr? value = some e) (isStop : stop.kind = k) (noOperator : k.power? = none) :
    full.expr .lowest c = (.ok e, m) ∧ expect k m = (.ok stop, d) :=
  ⟨(expr_eq_ok_iff first (by rw [second.kind_eq, isStop, noOperator])).mpr whole,
    expect_eq_ok second isStop⟩

private theorem reads_head {head : List Token} {e : Expr} {k : TokenKind}
    (passes : c.Passes head d) (written : WritesHead k head e) :
    c.kind = k ∧ ∃ word m, take c = (.ok word, m) ∧ full.parenthesized m = (.ok e, d) := by
  obtain ⟨isWord, isOpening, whole, isClosing⟩ := written
  refine ⟨passes.kind_eq.trans isWord, ?_⟩
  obtain ⟨c₁, passes₁, passes⟩ := passes.uncons
  obtain ⟨c₂, passes₂, passes⟩ := passes.uncons
  obtain ⟨c₃, passes₃, passes₄⟩ := passes.split
  obtain ⟨read, closed⟩ := reads_value passes₃ passes₄ whole isClosing rfl
  refine ⟨_, c₁, take_eq_ok passes₁, ?_⟩
  simp only [parenthesized, Attempt.bind_eq_ok_iff]
  exact ⟨_, _, expect_eq_ok passes₂ isOpening, _, _, read, _, _, closed, rfl⟩

theorem numeral_eq_ok {t : Token} {x : Float} (passes : c.Passes [t] d)
    (read : Decimal.read? t.text.toList = some x) : numeral c = (.ok x, d) := by
  have step := take_eq_ok passes
  simp only [take, Prod.mk.injEq] at step
  simp only [numeral, passes.current_eq, read, step.2]

private theorem reads_label {label : List Token} {v : Value} (passes : c.Passes label d)
    (written : WritesLabel label v) : Grammar.label c = (.ok v, d) := by
  rw [label_eq, kind_bind_apply]
  cases written with
  | number isNumber read =>
      rw [passes.kind_eq, isNumber, if_neg (by simp), unsignedLabel, kind_bind_apply,
        passes.kind_eq, isNumber]
      exact Attempt.bind_ok (numeral_eq_ok passes read) _
  | negative isDash isNumber read =>
      obtain ⟨m, passes₁, passes₂⟩ := passes.uncons
      rw [passes.kind_eq, isDash, if_pos rfl, Attempt.bind_ok (take_eq_ok passes₁), unsignedLabel,
        kind_bind_apply, passes₂.kind_eq, isNumber]
      exact Attempt.bind_ok (numeral_eq_ok passes₂ read) _
  | truth isTruth =>
      rw [passes.kind_eq, isTruth, if_neg (by simp), unsignedLabel, kind_bind_apply,
        passes.kind_eq, isTruth]
      exact Attempt.bind_ok (Attempt.bind_ok (take_eq_ok passes) _) _

mutual

/-- A written statement is read, unless it would take an `else` that follows it. -/
theorem Writes.reads {c d : Cursor} {seg : List Token} {s : Stmt} (written : Writes seg s)
    (passes : c.Passes seg d) (closed : s.endsOpen = true → d.kind ≠ .elseWord) :
    full.stmt c = (.ok s, d) := by
  rw [full_stmt, stmtForm, kind_bind_apply]
  match written with
  | .declare isWord isName isEquals whole isStop =>
      rw [passes.kind_eq, isWord]
      obtain ⟨c₁, passes₁, passes⟩ := passes.uncons
      obtain ⟨c₂, passes₂, passes⟩ := passes.uncons
      obtain ⟨c₃, passes₃, passes⟩ := passes.uncons
      obtain ⟨c₄, passes₄, passes₅⟩ := passes.split
      obtain ⟨read, stopped⟩ := reads_value passes₄ passes₅ whole isStop rfl
      simp only [declaration, Attempt.bind_eq_ok_iff]
      exact ⟨_, _, take_eq_ok passes₁, _, _, expectFor_eq_ok passes₂ isName, _, _,
        expect_eq_ok passes₃ isEquals, _, _, read, _, _, stopped, rfl⟩
  | .assign isName isEquals whole isStop =>
      rw [passes.kind_eq, isName]
      obtain ⟨c₁, passes₁, passes⟩ := passes.uncons
      obtain ⟨c₂, passes₂, passes⟩ := passes.uncons
      obtain ⟨c₃, passes₃, passes₄⟩ := passes.split
      obtain ⟨read, stopped⟩ := reads_value passes₃ passes₄ whole isStop rfl
      simp only [assignment, Attempt.bind_eq_ok_iff]
      exact ⟨_, _, expectFor_eq_ok passes₁ isName, _, _, expectFor_eq_ok passes₂ isEquals, _, _,
        read, _, _, stopped, rfl⟩
  | .print isWord whole isStop =>
      rw [passes.kind_eq, isWord]
      obtain ⟨c₁, passes₁, passes⟩ := passes.uncons
      obtain ⟨c₂, passes₂, passes₃⟩ := passes.split
      obtain ⟨read, stopped⟩ := reads_value passes₂ passes₃ whole isStop rfl
      simp only [printing, Attempt.bind_eq_ok_iff]
      exact ⟨_, _, take_eq_ok passes₁, _, _, read, _, _, stopped, rfl⟩
  | .block isOpening body isClosing =>
      rw [passes.kind_eq, isOpening]
      obtain ⟨c₁, passes₁, passes⟩ := passes.uncons
      obtain ⟨c₂, passes₂, passes₃⟩ := passes.split
      have read : full.stmts true #[] c₁ = (.ok _, c₂) :=
        body.reads passes₂ (.inr ⟨rfl, passes₃.kind_eq.trans isClosing⟩)
      simp only [Grammar.block, Attempt.bind_eq_ok_iff]
      exact ⟨_, _, take_eq_ok passes₁, _, _, read, _, _, expect_eq_ok passes₃ isClosing, rfl⟩
  | .conditional head yes =>
      obtain ⟨c₁, passes₁, passes₂⟩ := passes.split
      obtain ⟨isWord, _, _, taken, judged⟩ := reads_head passes₁ head
      have notElse : d.kind ≠ .elseWord := closed rfl
      rw [isWord]
      simp only [Grammar.conditional, Attempt.bind_eq_ok_iff]
      refine ⟨_, _, taken, _, _, judged, _, _, yes.reads passes₂ fun _ => notElse, _, _, rfl, ?_⟩
      rw [if_neg notElse]
      rfl
  | .alternative head yes shut isOther no =>
      obtain ⟨c₁, passes₁, passes⟩ := passes.split
      obtain ⟨c₂, passes₂, passes⟩ := passes.split
      obtain ⟨c₃, passes₃, passes₄⟩ := passes.uncons
      obtain ⟨isWord, _, _, taken, judged⟩ := reads_head passes₁ head
      rw [isWord]
      simp only [Grammar.conditional, Attempt.bind_eq_ok_iff]
      refine ⟨_, _, taken, _, _, judged, _, _, yes.reads passes₂ (by simp [shut]), _, _, rfl, ?_⟩
      rw [if_pos (passes₃.kind_eq.trans isOther)]
      simp only [Attempt.bind_eq_ok_iff]
      exact ⟨_, _, take_eq_ok passes₃, _, _, no.reads passes₄ closed, rfl⟩
  | .loop head body =>
      obtain ⟨c₁, passes₁, passes₂⟩ := passes.split
      obtain ⟨isWord, _, _, taken, judged⟩ := reads_head passes₁ head
      rw [isWord]
      simp only [Grammar.looping, Attempt.bind_eq_ok_iff]
      exact ⟨_, _, taken, _, _, judged, _, _, body.reads passes₂ closed, rfl⟩
  | .switch head isOpening clauses last isClosing =>
      obtain ⟨c₁, passes₁, passes⟩ := passes.split
      obtain ⟨c₂, passes₂, passes⟩ := passes.uncons
      obtain ⟨c₃, passes₃, passes⟩ := passes.split
      obtain ⟨c₄, passes₄, passes₅⟩ := passes.split
      obtain ⟨isWord, _, _, taken, judged⟩ := reads_head passes₁ head
      obtain ⟨notElse, rest⟩ := last.reads passes₄ (passes₅.kind_eq.trans isClosing)
      have read : full.clauses (.ofList []) none c₂ = (.ok _, c₄) :=
        clauses.reads passes₃ notElse rest
      rw [isWord]
      simp only [Grammar.switching, Attempt.bind_eq_ok_iff]
      exact ⟨_, _, taken, _, _, judged, _, _, expect_eq_ok passes₂ isOpening, _, _, read, _, _,
        expect_eq_ok passes₅ isClosing, rfl⟩

theorem WritesAll.reads {c d : Cursor} {seg : List Token} {body : List Stmt} {inBlock : Bool}
    {done : Array Stmt} (written : WritesAll seg body) (passes : c.Passes seg d)
    (stops : d.kind = .eof ∨ inBlock = true ∧ d.kind = .closeCurly) :
    full.stmts inBlock done c = (.ok (done.toList ++ body), d) := by
  rw [full_stmts, stmtsForm, kind_bind_apply]
  match written with
  | .nil =>
      obtain rfl := passes.eq_of_nil
      rw [if_pos stops, List.append_nil]
      rfl
  | .cons (s := s) one others =>
      obtain ⟨m, passes₁, passes₂⟩ := passes.split
      have start := one.starts passes₁
      have closed : m.kind ≠ .elseWord := others.notElse passes₂ (by
        rcases stops with ended | ⟨-, ended⟩ <;> simp [ended])
      have read := one.reads passes₁ fun _ => closed
      have behind : full.stmts inBlock (done.push s) m = (.ok _, d) := others.reads passes₂ stops
      rw [full_stmt] at read
      rw [if_neg (by simp_all), Attempt.bind_ok read, behind, Array.toList_push, List.append_assoc,
        List.singleton_append]

theorem WritesCases.reads {c m d : Cursor} {seg : List Token} {sofar entries : List (Value × Stmt)}
    {fallback : Option Stmt} (written : WritesCases seg entries) (passes : c.Passes seg m)
    (notElse : m.kind ≠ .elseWord)
    (rest : ∀ cases, full.clauses cases none m = (.ok (cases, fallback), d)) :
    full.clauses (.ofList sofar) none c = (.ok (.ofList (sofar ++ entries), fallback), d) := by
  match written with
  | .nil =>
      obtain rfl := passes.eq_of_nil
      rw [List.append_nil]
      exact rest _
  | .cons (v := v) (s := s) isWord label isColon body others =>
      rw [full_clauses, clausesForm, kind_bind_apply, passes.kind_eq, isWord]
      obtain ⟨c₁, passes₁, passes⟩ := passes.uncons
      obtain ⟨c₂, passes₂, passes⟩ := passes.split
      obtain ⟨c₃, passes₃, passes⟩ := passes.uncons
      obtain ⟨c₄, passes₄, passes₅⟩ := passes.split
      have closed : c₄.kind ≠ .elseWord := others.notElse passes₅ notElse
      have behind : full.clauses (.ofList (sofar ++ [(v, s)])) none c₄ = (.ok _, d) :=
        others.reads passes₅ notElse rest
      rw [Cases.ofList_append_singleton, List.append_assoc, List.singleton_append] at behind
      simp only [Option.isSome_none, Bool.false_eq_true, if_false, Attempt.bind_eq_ok_iff]
      exact ⟨_, _, take_eq_ok passes₁, _, _, reads_label passes₂ label, _, _,
        expect_eq_ok passes₃ isColon, _, _, body.reads passes₄ fun _ => closed, behind⟩

theorem WritesFallback.reads {c d : Cursor} {seg : List Token} {fallback : Option Stmt}
    (written : WritesFallback seg fallback) (passes : c.Passes seg d)
    (closes : d.kind = .closeCurly) :
    c.kind ≠ .elseWord ∧ ∀ cases, full.clauses cases none c = (.ok (cases, fallback), d) := by
  have stop (cases fallback) : full.clauses cases fallback d = (.ok (cases, fallback), d) := by
    rw [full_clauses, clausesForm, kind_bind_apply, closes]
    rfl
  match written with
  | .none =>
      obtain rfl := passes.eq_of_nil
      exact ⟨by simp [closes], fun cases => stop cases none⟩
  | .some isWord isColon body =>
      refine ⟨by simp [passes.kind_eq, isWord], fun cases => ?_⟩
      rw [full_clauses, clausesForm, kind_bind_apply, passes.kind_eq, isWord]
      obtain ⟨c₁, passes₁, passes⟩ := passes.uncons
      obtain ⟨c₂, passes₂, passes₃⟩ := passes.uncons
      simp only [Option.isSome_none, Bool.false_eq_true, if_false, Attempt.bind_eq_ok_iff]
      exact ⟨_, _, take_eq_ok passes₁, _, _, expect_eq_ok passes₂ isColon, _, _,
        body.reads passes₃ (by simp [closes]), stop cases _⟩

end

end Grammar

namespace Cursor

open Token (beforeEnd fromEnd)

variable {c d : Cursor} {seg tokens : List Token} {t : Token}

theorem kind_eq_eof_iff : d.kind = .eof ↔ beforeEnd d.ahead = [] := by
  unfold Cursor.kind Cursor.current beforeEnd
  cases d.ahead with
  | nil => simp [d.final_kind]
  | cons t rest => simp [List.takeWhile_cons]

/-- What is passed lies before the end of input. -/
theorem Passes.beforeEnd_ahead (passes : c.Passes seg d) :
    beforeEnd c.ahead = seg ++ beforeEnd d.ahead := by
  rw [passes.ahead]
  exact List.takeWhile_append_of_pos (by simpa using passes.unended)

/-- Every cursor can pass all that lies before the end of input. -/
theorem exists_passes_beforeEnd (c : Cursor) :
    ∃ d, c.Passes (beforeEnd c.ahead) d ∧ d.ahead = fromEnd c.ahead :=
  Passes.exists_of_ahead (Token.beforeEnd_append_fromEnd _).symm Token.unended_beforeEnd

/-- The start of a stream: either its last token, an end of input, is kept apart, or
it has all tokens ahead. -/
theorem ofTokens_cases (tokens : List Token) :
    (ofTokens tokens).ahead ++ [(ofTokens tokens).final] = tokens ∨
      (ofTokens tokens).ahead = tokens := by
  unfold ofTokens
  split
  · rename_i none
    exact .inr (List.getLast?_eq_none_iff.mp none).symm
  · rename_i last
    split
    · obtain ⟨before, rfl⟩ := List.getLast?_eq_some_iff.mp last
      exact .inl (by rw [List.dropLast_concat])
    · exact .inr rfl

theorem beforeEnd_append_end (ended : t.kind = .eof) (before : List Token) :
    beforeEnd (before ++ [t]) = beforeEnd before ∧
      fromEnd (before ++ [t]) = fromEnd before ++ [t] := by
  induction before with
  | nil => simp [beforeEnd, fromEnd, ended]
  | cons first before ih =>
      unfold beforeEnd fromEnd at ih ⊢
      by_cases here : first.kind = .eof
      · simp [here]
      · simpa [here] using ih

theorem beforeEnd_ofTokens (tokens : List Token) :
    beforeEnd (ofTokens tokens).ahead = beforeEnd tokens := by
  rcases ofTokens_cases tokens with whole | whole
  · exact (beforeEnd_append_end (ofTokens tokens).final_kind _).1.symm.trans (congrArg _ whole)
  · rw [whole]

/-- Behind all tokens before the end of input stands the first end of input. -/
theorem current_of_fromEnd (passes : (ofTokens tokens).Passes (beforeEnd tokens) d)
    (first : (fromEnd tokens).head? = some t) : d.current = t := by
  obtain ⟨d', passes', ahead⟩ := exists_passes_beforeEnd (ofTokens tokens)
  rw [beforeEnd_ofTokens] at passes'
  obtain rfl := passes.unique passes'
  unfold Cursor.current
  rw [ahead, passes.final]
  rcases ofTokens_cases tokens with whole | whole
  · rw [← whole, (beforeEnd_append_end (ofTokens tokens).final_kind _).2] at first
    cases ended : fromEnd (ofTokens tokens).ahead <;> simp_all
  · rw [whole]
    simp [List.headD_eq_head?_getD, first]

/-- Two streams with the same tokens up to the first end of input are read alike by
a parser that sees the tokens it passes and the one at which it stops. -/
theorem read_congr {α : Type} {x : Parser α} {c c' d d' : Cursor}
    (leads : ∀ depth, Parser.Leads depth Parser.Anywhere Eq x x)
    (whole : beforeEnd c.ahead = seg) (toEnd : c.Passes seg d) (toEnd' : c'.Passes seg d')
    (same : d.current = d'.current) : (x c').1 = (x c).1 := by
  subst whole
  rcases ran : x c with ⟨result, m⟩
  obtain ⟨seg, passes⟩ := (leads 0).moves.passes trivial ran
  rw [passes.beforeEnd_ahead] at toEnd toEnd'
  obtain ⟨m₁, passes₁, rest⟩ := toEnd.split
  obtain ⟨m', passes', rest'⟩ := toEnd'.split
  obtain rfl := passes.unique passes₁
  have here : m.current = m'.current := rest.current_congr rest' same
  have alike : Parser.Alike Eq result m m' := by
    cases result with
    | ok a => exact congrArg Token.kind here
    | error e => exact here
  rw [(leads (seg.length + 1)).follows c c' m m' seg result trivial trivial (Nat.lt_succ_self _) ran
    passes passes' alike]

end Cursor

namespace Program

open Token (beforeEnd fromEnd)

theorem ofTokens_eq (tokens : List Token) :
    ofTokens tokens = (Grammar.full.stmts false #[] (.ofTokens tokens)).1.map Stmt.block := rfl

/-- A stream of tokens is a program exactly if the tokens before its first end of
input are statements one after the other. -/
theorem ofTokens_eq_ok_iff {tokens : List Token} {p : Stmt} :
    ofTokens tokens = .ok p ↔
      ∃ body, p = .block body ∧ Grammar.WritesAll (beforeEnd tokens) body := by
  obtain ⟨d, toEnd, ahead⟩ := (Cursor.ofTokens tokens).exists_passes_beforeEnd
  rw [Cursor.beforeEnd_ofTokens] at toEnd
  rw [ofTokens_eq]
  constructor
  · rcases ran : Grammar.full.stmts false #[] (.ofTokens tokens) with ⟨_ | body, m⟩
    · rintro ⟨⟩
    · rintro ⟨⟩
      obtain ⟨seg, rest, passes, written, rfl, stops⟩ :=
        (Grammar.readsWritten _).stmts (Nat.lt_succ_self _) ran
      have ended : m.kind = .eof := by simpa using stops
      have whole := passes.beforeEnd_ahead
      rw [Cursor.beforeEnd_ofTokens, Cursor.kind_eq_eof_iff.mp ended, List.append_nil] at whole
      exact ⟨_, rfl, whole ▸ written⟩
  · rintro ⟨body, rfl, written⟩
    have ended : d.kind = .eof := by
      have whole := toEnd.beforeEnd_ahead
      rw [Cursor.beforeEnd_ofTokens, List.self_eq_append_right] at whole
      exact Cursor.kind_eq_eof_iff.mpr whole
    rw [written.reads toEnd (.inl ended)]
    rfl

/-- Nothing behind an end of input is seen. -/
theorem ofTokens_append_end {before : List Token} (unended : ∀ t ∈ before, t.kind ≠ .eof) {t : Token}
    (ended : t.kind = .eof) (rest : List Token) :
    ofTokens (before ++ t :: rest) = ofTokens (before ++ [t]) := by
  have toEnd (rest : List Token) :
      ∃ d, (Cursor.ofTokens (before ++ t :: rest)).Passes before d ∧ d.current = t := by
    obtain ⟨isBefore, isEnd⟩ := Token.cut_append unended ended rest
    obtain ⟨d, passes, -⟩ := (Cursor.ofTokens (before ++ t :: rest)).exists_passes_beforeEnd
    rw [Cursor.beforeEnd_ofTokens] at passes
    have here := Cursor.current_of_fromEnd passes (by rw [isEnd, List.head?_cons])
    rw [isBefore] at passes
    exact ⟨d, passes, here⟩
  obtain ⟨d, passes, here⟩ := toEnd []
  obtain ⟨d', passes', here'⟩ := toEnd rest
  have whole := Cursor.beforeEnd_ofTokens (before ++ [t])
  rw [(Token.cut_append unended ended []).1] at whole
  rw [ofTokens_eq, ofTokens_eq, Cursor.read_congr
    (fun depth => (Grammar.leads_full depth).stmts false #[]) whole passes passes'
    (here.trans here'.symm)]

/-- The parser accepts exactly the statement grammar: it gives a block of the
statements that the tokens before the first end of input write one after the other,
fails if they write none, and does not see what comes behind. -/
theorem ofTokens_exactly_grammar (tokens : List Token) :
    (∀ p, ofTokens tokens = .ok p ↔
      ∃ body, p = .block body ∧ Grammar.WritesAll (beforeEnd tokens) body) ∧
    ((∃ e, ofTokens tokens = .error e) ↔ ¬∃ body, Grammar.WritesAll (beforeEnd tokens) body) ∧
    ofTokens tokens = ofTokens (beforeEnd tokens ++ (fromEnd tokens).take 1) := by
  refine ⟨fun p => ofTokens_eq_ok_iff, ⟨?_, ?_⟩, ?_⟩
  · rintro ⟨e, failed⟩ ⟨body, written⟩
    have ran := ofTokens_eq_ok_iff.mpr ⟨body, rfl, written⟩
    rw [failed] at ran
    cases ran
  · intro unwritten
    cases ran : ofTokens tokens with
    | error e => exact ⟨e, rfl⟩
    | ok p =>
        obtain ⟨body, -, written⟩ := ofTokens_eq_ok_iff.mp ran
        exact absurd ⟨body, written⟩ unwritten
  · have whole := Token.beforeEnd_append_fromEnd tokens
    cases split : fromEnd tokens with
    | nil => rw [List.take_nil, ← split, whole]
    | cons t rest =>
        rw [split] at whole
        rw [List.take_succ_cons, List.take_zero,
          ← ofTokens_append_end Token.unended_beforeEnd (Token.ended_fromEnd split) rest, whole]

end Program
end Scriptlet
