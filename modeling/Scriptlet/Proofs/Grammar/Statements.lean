import Scriptlet.Program
import Scriptlet.Proofs.Cases
import Scriptlet.Proofs.Grammar.Levels

/-!
# The statement grammar

`Grammar.Writes` says which tokens write which statement: one rule for each form,
over stretches of tokens, with no parser in it but the one for expressions, which
has to accept a stretch as a whole. An `else` goes to the nearest conditional that
can take it, so the branch before an `else` does not end in a conditional that is
open for one. Every statement that the parser reads is written by the tokens that
it passed (`readsWritten`).
-/

namespace Scriptlet

namespace Stmt

mutual

/-- Whether a statement ends in a conditional without an `else`, which would take an
`else` that follows. -/
def endsOpen : Stmt → Bool
  | .branch _ _ onFalse => endsOpenElse onFalse
  | .loop _ body => body.endsOpen
  | _ => false

/-- Whether a conditional with this second branch ends in one without an `else`. -/
def endsOpenElse : Option Stmt → Bool
  | none => true
  | some s => s.endsOpen

end

end Stmt

namespace Grammar

/-- The expression that tokens write, if they do so from the first to the last. -/
def wholeExpr? (tokens : List Token) : Option Expr :=
  let c := Cursor.ofTokens tokens
  match (forCursor c).expr .lowest c with
  | (.ok e, d) => if d.ahead.isEmpty then some e else none
  | (.error _, _) => none

/-- A word and an expression in parentheses. -/
inductive WritesHead (k : TokenKind) : List Token → Expr → Prop
  | mk {word opening closing : Token} {inner : List Token} {e : Expr} :
      word.kind = k → opening.kind = .openParen → wholeExpr? inner = some e →
      closing.kind = .closeParen → WritesHead k (word :: opening :: (inner ++ [closing])) e

theorem WritesHead.length_pos {k : TokenKind} {seg : List Token} {e : Expr}
    (head : WritesHead k seg e) : 0 < seg.length := by
  cases head
  simp

/-- The label of a case. -/
inductive WritesLabel : List Token → Value → Prop
  | number {t : Token} {x : Float} :
      t.kind = .number → Decimal.read? t.text.toList = some x → WritesLabel [t] (.num x)
  | negative {dash t : Token} {x : Float} :
      dash.kind = .dash → t.kind = .number → Decimal.read? t.text.toList = some x →
      WritesLabel [dash, t] (.num (-x))
  | truth {t : Token} : t.kind = .boolean → WritesLabel [t] (.bool (t.text == "true"))

mutual

/-- The tokens of a statement. -/
inductive Writes : List Token → Stmt → Prop
  | declare {word name equals stop : Token} {value : List Token} {e : Expr} :
      word.kind = .declareWord → name.kind = .identifier → equals.kind = .assignment →
      wholeExpr? value = some e → stop.kind = .semicolon →
      Writes (word :: name :: equals :: (value ++ [stop])) (.declare name.text e)
  | assign {name equals stop : Token} {value : List Token} {e : Expr} :
      name.kind = .identifier → equals.kind = .assignment → wholeExpr? value = some e →
      stop.kind = .semicolon → Writes (name :: equals :: (value ++ [stop])) (.assign name.text e)
  | print {word stop : Token} {value : List Token} {e : Expr} :
      word.kind = .printWord → wholeExpr? value = some e → stop.kind = .semicolon →
      Writes (word :: (value ++ [stop])) (.print e)
  | block {opening closing : Token} {inner : List Token} {body : List Stmt} :
      opening.kind = .openCurly → WritesAll inner body → closing.kind = .closeCurly →
      Writes (opening :: (inner ++ [closing])) (.block body)
  | conditional {head yes : List Token} {e : Expr} {s : Stmt} :
      WritesHead .ifWord head e → Writes yes s → Writes (head ++ yes) (.branch e s none)
  | alternative {head yes no : List Token} {other : Token} {e : Expr} {s s' : Stmt} :
      WritesHead .ifWord head e → Writes yes s → s.endsOpen = false →
      other.kind = .elseWord → Writes no s' →
      Writes (head ++ (yes ++ other :: no)) (.branch e s (some s'))
  | loop {head body : List Token} {e : Expr} {s : Stmt} :
      WritesHead .whileWord head e → Writes body s → Writes (head ++ body) (.loop e s)
  | switch {head clauses last : List Token} {opening closing : Token} {e : Expr}
      {entries : List (Value × Stmt)} {fallback : Option Stmt} :
      WritesHead .switchWord head e → opening.kind = .openCurly →
      WritesCases clauses entries → WritesFallback last fallback → closing.kind = .closeCurly →
      Writes (head ++ opening :: (clauses ++ (last ++ [closing])))
        (.switch e (Cases.ofList entries) fallback)

/-- The tokens of statements one after the other. -/
inductive WritesAll : List Token → List Stmt → Prop
  | nil : WritesAll [] []
  | cons {first rest : List Token} {s : Stmt} {body : List Stmt} :
      Writes first s → WritesAll rest body → WritesAll (first ++ rest) (s :: body)

/-- The tokens of cases one after the other. -/
inductive WritesCases : List Token → List (Value × Stmt) → Prop
  | nil : WritesCases [] []
  | cons {word colon : Token} {label body rest : List Token} {v : Value} {s : Stmt}
      {entries : List (Value × Stmt)} :
      word.kind = .caseWord → WritesLabel label v → colon.kind = .colon → Writes body s →
      WritesCases rest entries →
      WritesCases (word :: (label ++ colon :: (body ++ rest))) ((v, s) :: entries)

/-- The tokens of a fallback, if there is one. -/
inductive WritesFallback : List Token → Option Stmt → Prop
  | none : WritesFallback [] none
  | some {word colon : Token} {body : List Token} {s : Stmt} :
      word.kind = .defaultWord → colon.kind = .colon → Writes body s →
      WritesFallback (word :: colon :: body) (some s)

end

open Cursor (Passes)
open Scriptlet.Parser

variable {c d : Cursor} {seg : List Token}

/-- A stretch of tokens on its own, from its first token to its end. -/
theorem passes_ofTokens (unended : ∀ t ∈ seg, t.kind ≠ .eof) :
    ∃ d, (Cursor.ofTokens seg).Passes seg d ∧ d.ahead = [] := by
  refine Passes.exists_of_ahead ?_ unended
  rw [List.append_nil]
  unfold Cursor.ofTokens
  split
  · rename_i none
    exact (List.getLast?_eq_none_iff.mp none).symm
  · rename_i t last
    rw [dif_neg (unended t (List.mem_of_getLast? last))]

theorem kind_of_ahead_nil (ended : d.ahead = []) : d.kind = .eof := by
  rw [Cursor.kind, Cursor.current, ended]
  exact d.final_kind

theorem wholeExpr?_eq_some_iff {tokens : List Token} {e : Expr} :
    wholeExpr? tokens = some e ↔
      ∃ d, full.expr .lowest (.ofTokens tokens) = (.ok e, d) ∧ d.ahead = [] := by
  change (match full.expr .lowest (.ofTokens tokens) with
    | (.ok e, d) => if d.ahead.isEmpty then some e else none
    | (.error _, _) => none) = some e ↔ _
  rcases full.expr .lowest (.ofTokens tokens) with ⟨_ | e', d⟩
  · simp
  · simp [and_assoc, and_comm]

/-- Before a token that is no operator, an expression is read exactly if its tokens
write it on their own. -/
theorem expr_eq_ok_iff {e : Expr} (passes : c.Passes seg d) (stops : d.kind.power? = none) :
    full.expr .lowest c = (.ok e, d) ↔ wholeExpr? seg = some e := by
  obtain ⟨d₀, alone, ended⟩ := passes_ofTokens passes.unended
  have leads := (leads_full (seg.length + 1)).expr .lowest
  have stops₀ : d₀.kind.power? = none := by rw [kind_of_ahead_nil ended]; rfl
  rw [wholeExpr?_eq_some_iff]
  constructor
  · intro ran
    exact ⟨d₀, leads.follows c _ d d₀ seg _ trivial trivial (by omega) ran passes alone
      (.inr stops₀), ended⟩
  · rintro ⟨d₁, ran, ended₁⟩
    obtain ⟨seg₁, passes₁⟩ := leads.moves.passes trivial ran
    have whole : seg = seg₁ := by
      have lhs := alone.ahead
      have rhs := passes₁.ahead
      rw [ended, List.append_nil] at lhs
      rw [ended₁, List.append_nil] at rhs
      exact lhs.symm.trans rhs
    subst whole
    obtain rfl := alone.unique passes₁
    exact leads.follows _ c d₀ d seg _ trivial trivial (by omega) ran passes₁ passes
      (.inr stops)

theorem exists_passes_of_expr {e : Expr} (ran : full.expr .lowest c = (.ok e, d))
    (stops : d.kind.power? = none) : ∃ seg, c.Passes seg d ∧ wholeExpr? seg = some e := by
  obtain ⟨seg, passes⟩ := ((leads_full 0).expr .lowest).moves.passes trivial ran
  exact ⟨seg, passes, (expr_eq_ok_iff passes stops).mp ran⟩

/-- A value and the semicolon behind it. -/
private theorem writes_value {e : Expr} {stop : Token} {m : Cursor}
    (read : full.expr .lowest c = (.ok e, m)) (stopped : expect .semicolon m = (.ok stop, d)) :
    ∃ value, c.Passes (value ++ [stop]) d ∧ wholeExpr? value = some e ∧ stop.kind = .semicolon := by
  obtain ⟨passes₂, found⟩ := passes_of_expect (by simp) stopped
  obtain ⟨value, passes₁, whole⟩ := exists_passes_of_expr read (by rw [passes₂.kind_eq, found]; rfl)
  exact ⟨value, passes₁.trans passes₂, whole, found⟩

private theorem writes_parenthesized {e : Expr} {k : TokenKind} {word : Token} {m : Cursor}
    (first : c.Passes [word] m) (found : word.kind = k) (ran : full.parenthesized m = (.ok e, d)) :
    ∃ head, c.Passes head d ∧ WritesHead k head e := by
  simp only [parenthesized, Attempt.bind_eq_ok_iff] at ran
  obtain ⟨opening, c₁, opened, e, c₂, read, closing, c₃, closed, done⟩ := ran
  cases done
  obtain ⟨passes₁, isOpening⟩ := passes_of_expect (by simp) opened
  obtain ⟨passes₃, isClosing⟩ := passes_of_expect (by simp) closed
  obtain ⟨inner, passes₂, whole⟩ :=
    exists_passes_of_expr read (by rw [passes₃.kind_eq, isClosing]; rfl)
  exact ⟨_, first.trans (passes₁.trans (passes₂.trans passes₃)), .mk found isOpening whole isClosing⟩

theorem read?_of_numeral {x : Float} (ran : numeral c = (.ok x, d)) :
    Decimal.read? c.current.text.toList = some x ∧ d = c.advance := by
  cases read : Decimal.read? c.current.text.toList with
  | none => simp [numeral, read] at ran
  | some y =>
      simp only [numeral, read, Prod.mk.injEq, Except.ok.injEq] at ran
      exact ⟨congrArg some ran.1, ran.2.symm⟩

private theorem writes_unsignedLabel {negative : Bool} {v : Value}
    (ran : unsignedLabel negative c = (.ok v, d)) :
    ∃ t, c.Passes [t] d ∧
      ((∃ x, t.kind = .number ∧ Decimal.read? t.text.toList = some x ∧
          v = .num (if negative then -x else x)) ∨
        t.kind = .boolean ∧ negative = false ∧ v = .bool (t.text == "true")) := by
  simp only [unsignedLabel, kind_bind_apply] at ran
  generalize found : c.kind = k at ran
  split at ran
  · simp only [Attempt.bind_eq_ok_iff] at ran
    obtain ⟨x, m, read, done⟩ := ran
    cases done
    obtain ⟨number, rfl⟩ := read?_of_numeral read
    exact ⟨c.current, .advance (by simp [found]), .inl ⟨x, found, number, rfl⟩⟩
  · cases negative with
    | true => simp [refuseFor] at ran
    | false =>
        simp only [truthValue, Bool.false_eq_true, if_false, Attempt.bind_eq_ok_iff] at ran
        obtain ⟨b, m, ⟨t, m', taken, read⟩, done⟩ := ran
        cases read
        cases done
        obtain ⟨passes, same⟩ := passes_of_take (by simp [found]) taken
        exact ⟨t, passes, .inr ⟨same.trans found, rfl, rfl⟩⟩
  · simp [refuseFor] at ran

theorem writes_label {v : Value} (ran : label c = (.ok v, d)) :
    ∃ seg, c.Passes seg d ∧ WritesLabel seg v := by
  rw [label_eq, kind_bind_apply] at ran
  split at ran
  · rename_i found
    obtain ⟨dash, m, taken, rest⟩ := Attempt.bind_eq_ok_iff.mp ran
    obtain ⟨passes₁, isDash⟩ := passes_of_take (by simp [found]) taken
    obtain ⟨t, passes₂, ⟨x, number, read, rfl⟩ | ⟨_, signed, _⟩⟩ := writes_unsignedLabel rest
    · exact ⟨_, passes₁.trans passes₂, .negative (isDash.trans found) number read⟩
    · cases signed
  · obtain ⟨t, passes, ⟨x, number, read, rfl⟩ | ⟨truth, _, rfl⟩⟩ := writes_unsignedLabel ran
    · exact ⟨_, passes, .number number read⟩
    · exact ⟨_, passes, .truth truth⟩

/-- Statements read ahead of fewer than `n` tokens are written by what was passed,
and one that is open for an `else` is not followed by one. -/
def ReadsWritten (n : Nat) : Prop :=
  ∀ c s d, c.ahead.length < n → full.stmt c = (.ok s, d) →
    ∃ seg, c.Passes seg d ∧ Writes seg s ∧ (s.endsOpen = true → d.kind ≠ .elseWord)

/-- Every statement that is read passes a token. -/
theorem length_ahead_stmt {s : Stmt} (ran : full.stmt c = (.ok s, d)) :
    d.ahead.length < c.ahead.length := by
  have takes : Takes 1 Anywhere Eq full.stmt full.stmt := by
    rw [full_stmt]
    exact takes_stmtForm (leads_full 0)
  obtain ⟨seg, passes⟩ := takes.moves.passes trivial ran
  have more := takes.advances c s d trivial ran
  have ahead := passes.length_ahead
  have passed := passes.passed
  omega

variable {n : Nat}

namespace ReadsWritten

/-- A loop over statements reads what they write, up to where it stops. -/
theorem stmts (reads : ReadsWritten n) {inBlock : Bool} {done : Array Stmt}
    {body : List Stmt} (few : c.ahead.length < n)
    (ran : full.stmts inBlock done c = (.ok body, d)) :
    ∃ seg rest, c.Passes seg d ∧ WritesAll seg rest ∧ body = done.toList ++ rest ∧
      (d.kind = .eof ∨ inBlock = true ∧ d.kind = .closeCurly) := by
  induction m : c.ahead.length using Nat.strongRecOn generalizing c done with
  | ind m ih =>
  subst m
  rw [full_stmts, stmtsForm, kind_bind_apply] at ran
  split at ran
  · rename_i stops
    cases ran
    exact ⟨[], [], .refl _, .nil, (List.append_nil _).symm, stops⟩
  · obtain ⟨s, m, read, others⟩ := Attempt.bind_eq_ok_iff.mp ran
    rw [← full_stmt] at read
    have shorter := length_ahead_stmt read
    obtain ⟨first, passes₁, written, _⟩ := reads c s m few read
    obtain ⟨seg, rest, passes₂, writtenRest, same, stops⟩ :=
      ih _ shorter (by omega) others rfl
    refine ⟨first ++ seg, s :: rest, passes₁.trans passes₂, .cons written writtenRest, ?_, stops⟩
    rw [same, Array.toList_push, List.append_assoc, List.singleton_append]

/-- A loop over clauses reads the cases and the fallback that they write. -/
theorem clauses (reads : ReadsWritten n) {sofar : List (Value × Stmt)}
    {cases : Cases Stmt} {fallback fallback' : Option Stmt} (few : c.ahead.length < n)
    (ran : full.clauses (.ofList sofar) fallback c = (.ok (cases, fallback'), d)) :
    d.kind = .closeCurly ∧ ∃ seg last entries, c.Passes (seg ++ last) d ∧ WritesCases seg entries ∧
      cases = .ofList (sofar ++ entries) ∧
      (fallback.isSome = true ∧ seg = [] ∧ last = [] ∧ fallback' = fallback ∨
        fallback = none ∧ WritesFallback last fallback') := by
  induction m : c.ahead.length using Nat.strongRecOn generalizing c sofar fallback with
  | ind m ih =>
  subst m
  rw [full_clauses, clausesForm, kind_bind_apply] at ran
  generalize found : c.kind = k at ran
  split at ran
  · cases fallback with
    | some s => simp [refuseFor] at ran
    | none =>
        simp only [Option.isSome_none, Bool.false_eq_true, if_false, Attempt.bind_eq_ok_iff] at ran
        obtain ⟨word, c₁, taken, v, c₂, labelled, colon, c₃, parted, s, c₄, read, others⟩ := ran
        obtain ⟨passes₁, isWord⟩ := passes_of_take (by simp [found]) taken
        obtain ⟨label, passes₂, writtenLabel⟩ := writes_label labelled
        obtain ⟨passes₃, isColon⟩ := passes_of_expect (by simp) parted
        have toBody := passes₁.trans (passes₂.trans passes₃)
        have few₃ := toBody.length_ahead
        obtain ⟨body, passes₄, written, _⟩ := reads c₃ s c₄ (by omega) read
        have shorter := length_ahead_stmt read
        rw [← Cases.ofList_append_singleton] at others
        obtain ⟨closes, seg, last, entries, passes₅, writtenRest, same, rest⟩ :=
          ih c₄.ahead.length (by omega) (by omega) others rfl
        refine ⟨closes, word :: (label ++ colon :: (body ++ seg)), last, (v, s) :: entries, ?_,
          .cons (isWord.trans found) writtenLabel isColon written writtenRest, ?_,
          .inr (rest.resolve_left (by simp))⟩
        · simpa using toBody.trans (passes₄.trans passes₅)
        · simpa using same
  · cases fallback with
    | some s => simp [refuseFor] at ran
    | none =>
        simp only [Option.isSome_none, Bool.false_eq_true, if_false, Attempt.bind_eq_ok_iff] at ran
        obtain ⟨word, c₁, taken, colon, c₂, parted, s, c₃, read, others⟩ := ran
        obtain ⟨passes₁, isWord⟩ := passes_of_take (by simp [found]) taken
        obtain ⟨passes₂, isColon⟩ := passes_of_expect (by simp) parted
        have toBody := passes₁.trans passes₂
        have few₂ := toBody.length_ahead
        obtain ⟨body, passes₃, written, _⟩ := reads c₂ s c₃ (by omega) read
        have shorter := length_ahead_stmt read
        obtain ⟨closes, seg, last, entries, passes₄, writtenRest, same, rest⟩ :=
          ih c₃.ahead.length (by omega) (by omega) others rfl
        -- Behind a fallback there are no further clauses.
        obtain ⟨_, rfl, rfl, rfl⟩ | ⟨absent, _⟩ := rest
        · cases writtenRest
          refine ⟨closes, [], word :: colon :: body, [], ?_, .nil, same, .inr ⟨rfl, ?_⟩⟩
          · simpa using toBody.trans (passes₃.trans passes₄)
          · exact .some (isWord.trans found) isColon written
        · cases absent
  · cases ran
    refine ⟨found, [], [], [], .refl _, .nil, by simp, ?_⟩
    cases fallback' with
    | none => exact .inr ⟨rfl, .none⟩
    | some s => exact .inl ⟨rfl, rfl, rfl, rfl⟩
  · simp [refuseFor] at ran

/-- A conditional reads what its parts write. An `else` at its end would have been
taken by the conditional, or by the branch that it ends in. -/
private theorem conditional (reads : ReadsWritten n) {s : Stmt} (few : c.ahead.length ≤ n)
    (found : c.kind = .ifWord) (ran : full.conditional c = (.ok s, d)) :
    ∃ seg, c.Passes seg d ∧ Writes seg s ∧ (s.endsOpen = true → d.kind ≠ .elseWord) := by
  simp only [Grammar.conditional, Attempt.bind_eq_ok_iff] at ran
  obtain ⟨word, c₁, taken, e, c₂, judged, yes, c₃, read, _, _, seen, rest⟩ := ran
  cases seen
  obtain ⟨passes₁, isWord⟩ := passes_of_take (by simp [found]) taken
  obtain ⟨head, passes₂, written₂⟩ := writes_parenthesized passes₁ (isWord.trans found) judged
  have few₂ := passes₂.length_ahead
  have nonempty := written₂.length_pos
  obtain ⟨seg, passes₃, written₃, closed⟩ := reads c₂ yes c₃ (by omega) read
  split at rest
  · rename_i another
    simp only [Attempt.bind_eq_ok_iff] at rest
    obtain ⟨other, c₄, taken', no, c₅, read', done⟩ := rest
    cases done
    obtain ⟨passes₄, isOther⟩ := passes_of_take (by simp [another]) taken'
    have few₃ := passes₃.length_ahead
    have few₄ := passes₄.length_ahead
    obtain ⟨seg', passes₅, written₅, closed'⟩ := reads c₄ no d (by omega) read'
    refine ⟨_, passes₂.trans (passes₃.trans (passes₄.trans passes₅)), ?_, closed'⟩
    exact .alternative written₂ written₃ (by simpa using fun isOpen => closed isOpen another)
      (isOther.trans another) written₅
  · rename_i notElse
    cases rest
    exact ⟨_, passes₂.trans passes₃, .conditional written₂ written₃, fun _ => notElse⟩

private theorem looping (reads : ReadsWritten n) {s : Stmt} (few : c.ahead.length ≤ n)
    (found : c.kind = .whileWord) (ran : full.looping c = (.ok s, d)) :
    ∃ seg, c.Passes seg d ∧ Writes seg s ∧ (s.endsOpen = true → d.kind ≠ .elseWord) := by
  simp only [Grammar.looping, Attempt.bind_eq_ok_iff] at ran
  obtain ⟨word, c₁, taken, e, c₂, judged, body, c₃, read, done⟩ := ran
  cases done
  obtain ⟨passes₁, isWord⟩ := passes_of_take (by simp [found]) taken
  obtain ⟨head, passes₂, written₂⟩ := writes_parenthesized passes₁ (isWord.trans found) judged
  have few₂ := passes₂.length_ahead
  have nonempty := written₂.length_pos
  obtain ⟨seg, passes₃, written₃, closed⟩ := reads c₂ body d (by omega) read
  exact ⟨_, passes₂.trans passes₃, .loop written₂ written₃, closed⟩

private theorem switching (reads : ReadsWritten n) {s : Stmt} (few : c.ahead.length ≤ n)
    (found : c.kind = .switchWord) (ran : full.switching c = (.ok s, d)) :
    ∃ seg, c.Passes seg d ∧ Writes seg s ∧ s.endsOpen = false := by
  simp only [Grammar.switching, Attempt.bind_eq_ok_iff] at ran
  obtain ⟨word, c₁, taken, e, c₂, judged, opening, c₃, opened, ⟨cases, fallback⟩, c₄, read,
    closing, c₅, closed, done⟩ := ran
  cases done
  obtain ⟨passes₁, isWord⟩ := passes_of_take (by simp [found]) taken
  obtain ⟨head, passes₂, written₂⟩ := writes_parenthesized passes₁ (isWord.trans found) judged
  obtain ⟨passes₃, isOpening⟩ := passes_of_expect (by simp) opened
  obtain ⟨passes₅, isClosing⟩ := passes_of_expect (by simp) closed
  have few₂ := passes₂.length_ahead
  have nonempty := written₂.length_pos
  have few₃ := passes₃.length_ahead
  change full.clauses (.ofList []) none c₃ = (.ok (cases, fallback), c₄) at read
  obtain ⟨-, seg, last, entries, passes₄, written₄, rfl, rest⟩ := reads.clauses (by omega) read
  obtain ⟨absurd, -⟩ | ⟨-, writtenLast⟩ := rest
  · cases absurd
  · refine ⟨head ++ opening :: (seg ++ (last ++ [closing])), ?_, ?_, rfl⟩
    · simpa using passes₂.trans (passes₃.trans (passes₄.trans passes₅))
    · exact .switch written₂ isOpening written₄ writtenLast isClosing

theorem succ (reads : ReadsWritten n) : ReadsWritten (n + 1) := by
  intro c s d few ran
  rw [full_stmt, stmtForm, kind_bind_apply] at ran
  generalize found : c.kind = k at ran
  split at ran
  · simp only [declaration, Attempt.bind_eq_ok_iff] at ran
    obtain ⟨word, c₁, taken, name, c₂, named, equals, c₃, equated, e, c₄, read, stop, c₅, stopped,
      done⟩ := ran
    cases done
    obtain ⟨passes₁, isWord⟩ := passes_of_take (by simp [found]) taken
    obtain ⟨passes₂, isName⟩ := passes_of_expectFor (by simp) named
    obtain ⟨passes₃, isEquals⟩ := passes_of_expect (by simp) equated
    obtain ⟨value, passes₄, whole, isStop⟩ := writes_value read stopped
    exact ⟨_, passes₁.trans (passes₂.trans (passes₃.trans passes₄)),
      .declare (isWord.trans found) isName isEquals whole isStop, nofun⟩
  · simp only [assignment, Attempt.bind_eq_ok_iff] at ran
    obtain ⟨name, c₁, named, equals, c₂, equated, e, c₃, read, stop, c₄, stopped, done⟩ := ran
    cases done
    obtain ⟨passes₁, isName⟩ := passes_of_expectFor (by simp) named
    obtain ⟨passes₂, isEquals⟩ := passes_of_expectFor (by simp) equated
    obtain ⟨value, passes₃, whole, isStop⟩ := writes_value read stopped
    exact ⟨_, passes₁.trans (passes₂.trans passes₃), .assign isName isEquals whole isStop, nofun⟩
  · simp only [printing, Attempt.bind_eq_ok_iff] at ran
    obtain ⟨word, c₁, taken, e, c₂, read, stop, c₃, stopped, done⟩ := ran
    cases done
    obtain ⟨passes₁, isWord⟩ := passes_of_take (by simp [found]) taken
    obtain ⟨value, passes₂, whole, isStop⟩ := writes_value read stopped
    exact ⟨_, passes₁.trans passes₂, .print (isWord.trans found) whole isStop, nofun⟩
  · simp only [block, Attempt.bind_eq_ok_iff] at ran
    obtain ⟨opening, c₁, taken, body, c₂, read, closing, c₃, closed, done⟩ := ran
    cases done
    obtain ⟨passes₁, isOpening⟩ := passes_of_take (by simp [found]) taken
    obtain ⟨passes₃, isClosing⟩ := passes_of_expect (by simp) closed
    have few₁ := passes₁.length_ahead
    obtain ⟨inner, rest, passes₂, written, rfl, -⟩ := reads.stmts (by simp at few₁; omega) read
    exact ⟨_, passes₁.trans (passes₂.trans passes₃),
      .block (isOpening.trans found) written isClosing, nofun⟩
  · exact reads.conditional (by omega) found ran
  · exact reads.looping (by omega) found ran
  · obtain ⟨seg, passes, written, closed⟩ := reads.switching (by omega) found ran
    exact ⟨seg, passes, written, by simp [closed]⟩
  · simp [refuseFor] at ran

end ReadsWritten

theorem readsWritten (n : Nat) : ReadsWritten n := by
  induction n with
  | zero => exact fun c s d few => absurd few (Nat.not_lt_zero _)
  | succ n ih => exact ih.succ

end Grammar
end Scriptlet
