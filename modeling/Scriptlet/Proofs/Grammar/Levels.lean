import Mathlib.Order.Defs.Unbundled
import Scriptlet.Proofs.Grammar.Passing

/-!
# The levels of the grammar

Forms nest level by level, and each level passes a token before it goes to the
next, so two grammars of different depths read alike whatever is shorter than
both. `Grammar.full` has as many levels as there are tokens ahead: it is its own
next level, so its parsers satisfy the equations of the forms without regard to
depth (`full_expr`, `full_operators`, `full_stmt`, `full_stmts`, `full_clauses`),
and each of them sees no more than it passes and the token at which it stops.
-/

namespace Scriptlet

open Cursor (Passes)
open Scriptlet.Parser

namespace TokenKind

/-- An expression that ends before the kind `k` ends before `k'` too: they are equal, or
`k'` is no operator. -/
def SameStop (k k' : TokenKind) : Prop := k = k' ∨ k'.power? = none

instance : Std.Refl SameStop := ⟨fun _ => .inl rfl⟩

end TokenKind

namespace Grammar

/-- Every part of the grammar `g` leads the same part of `g'`. -/
structure Leads (depth : Nat) (g g' : Grammar) : Prop where
  expr : ∀ power, Parser.Leads depth Anywhere TokenKind.SameStop (g.expr power) (g'.expr power)
  operators : ∀ power left,
    Parser.Leads depth Anywhere TokenKind.SameStop (g.operators power left) (g'.operators power left)
  stmt : Parser.Leads depth Anywhere Eq g.stmt g'.stmt
  stmts : ∀ inBlock done,
    Parser.Leads depth Anywhere Eq (g.stmts inBlock done) (g'.stmts inBlock done)
  clauses : ∀ cases fallback,
    Parser.Leads depth Anywhere Eq (g.clauses cases fallback) (g'.clauses cases fallback)

variable {g g' : Grammar} {depth : Nat} {start : TokenKind → Prop}
variable {same : TokenKind → TokenKind → Prop}

theorem numeral_eq : numeral = judged fun t =>
    match Decimal.read? t.text.toList with
    | some x => .ok x
    | none => .error ⟨.badNumber t.text, t.span.start⟩ := by
  funext c
  cases read : Decimal.read? c.current.text.toList <;>
    simp [numeral, judged, read, Cursor.position]

theorem typeName_eq : typeName = judged fun t =>
    if t.kind = .typeName ∨ t.kind = .identifier then
      match Ty.ofName? t.text with
      | some ty => .ok ty
      | none => .error ⟨.unknownType t.text, t.span.start⟩
    else .error ⟨.unexpectedFor t.text "expected a type name", t.span.start⟩ := by
  funext c
  by_cases named : c.current.kind = .typeName ∨ c.current.kind = .identifier
  · cases found : Ty.ofName? c.current.text <;>
      simp [typeName, judged, Cursor.kind, named, found, Cursor.position]
  · simp [typeName, judged, Cursor.kind, named, Cursor.unexpectedFor, Cursor.position]

theorem takes_numeral (notAtEnd : ¬ start .eof) : Takes depth start same numeral numeral := by
  rw [numeral_eq]
  exact takes_judged fun t _ here _ ended => notAtEnd (ended ▸ here)

theorem takes_typeName : Takes depth start same typeName typeName := by
  rw [typeName_eq]
  refine takes_judged fun t _ _ accepted ended => ?_
  simp [ended] at accepted

theorem takes_truthValue [Std.Refl same] (notAtEnd : ¬ start .eof) :
    Takes (depth + 1) start same truthValue truthValue :=
  (takes_take notAtEnd).bind fun _ => leads_pure _

theorem takes_primary [Std.Refl same] : Takes (depth + 1) start same primary primary := by
  refine takes_kind fun k => ?_
  split
  · exact (takes_numeral (by simp)).bind fun _ => leads_pure _
  · exact (takes_truthValue (by simp)).bind fun _ => leads_pure _
  · exact (takes_take (by simp)).bind fun _ => leads_pure _
  · exact takes_refuse

theorem takes_inputRead [Std.Refl same] (notAtEnd : ¬ start .eof) :
    Takes (depth + 1) start same inputRead inputRead := by
  refine (takes_take notAtEnd).bind fun _ => ?_
  refine (takes_expect (by simp)).toLeads.bind fun _ => ?_
  refine takes_typeName.toLeads.bind fun _ => ?_
  exact (takes_expect (by simp)).toLeads.bind fun _ => leads_pure _

/-- What a label says behind its sign. -/
def unsignedLabel (negative : Bool) : Parser Value := do
  match ← kind with
  | .number => do
    let x ← numeral
    return .num (if negative then -x else x)
  | .boolean =>
    if negative then refuseFor "expected a number or boolean case label"
    else return .bool (← truthValue)
  | _ => refuseFor "expected a number or boolean case label"

theorem label_eq : label = kind >>= fun k =>
    if k = .dash then take >>= fun _ => unsignedLabel true else unsignedLabel false := by
  unfold label
  congr
  funext k
  by_cases negative : k = .dash
  · simp only [negative, if_true]
    rfl
  · simp only [negative, if_false]
    rfl

theorem takes_unsignedLabel [Std.Refl same] (negative : Bool) :
    Takes (depth + 1) start same (unsignedLabel negative) (unsignedLabel negative) := by
  refine takes_kind fun k => ?_
  split
  · exact (takes_numeral (by simp)).bind fun _ => leads_pure _
  · split
    · exact takes_refuseFor _
    · exact (takes_truthValue (by simp)).bind fun _ => leads_pure _
  · exact takes_refuseFor _

theorem takes_label [Std.Refl same] : Takes (depth + 1) start same label label := by
  rw [label_eq]
  refine takes_kind fun k => ?_
  split
  · rename_i negative
    refine (takes_take (by simp [negative])).bind fun _ => ?_
    exact (takes_unsignedLabel true).toLeads.shallower
  · exact takes_unsignedLabel false

section

variable (leads : g.Leads depth g')
include leads

theorem Leads.exprEq (power : Power) :
    Parser.Leads depth Anywhere Eq (g.expr power) (g'.expr power) :=
  (leads.expr power).mono (Nat.le_refl depth) fun _ _ equal => .inl equal

theorem takes_unary : Takes (depth + 1) start TokenKind.SameStop g.unary g'.unary := by
  refine takes_kind fun k => ?_
  split
  · rename_i op prefixed
    refine (takes_take ?_).bind fun _ => (leads.expr _).bind fun _ => leads_pure _
    rintro rfl
    cases prefixed
  · exact takes_refuse

theorem takes_grouping (notAtEnd : ¬ start .eof) :
    Takes (depth + 1) start TokenKind.SameStop g.grouping g'.grouping := by
  refine (takes_take notAtEnd).bind fun _ => (leads.expr _).bind fun _ => ?_
  exact (takes_expect (by simp)).toLeads.bind fun _ => leads_pure _

theorem takes_operand : Takes (depth + 1) start TokenKind.SameStop g.operand g'.operand := by
  refine takes_kind fun k => ?_
  split
  · exact takes_primary
  · exact takes_primary
  · exact takes_primary
  · exact takes_inputRead (by simp)
  · exact takes_unary leads
  · exact takes_unary leads
  · exact takes_grouping leads (by simp)
  · exact takes_refuse

theorem takes_binary (left : Expr) (power : Power) :
    Takes (depth + 1) start TokenKind.SameStop (g.binary left power) (g'.binary left power) := by
  refine takes_kind fun k => ?_
  split
  · rename_i op infixed
    refine (takes_take ?_).bind fun _ => (leads.expr _).bind fun _ => leads_pure _
    rintro rfl
    cases infixed
  · exact takes_refuse

theorem leads_operatorsForm (power : Power) (left : Expr) :
    Parser.Leads (depth + 1) Anywhere TokenKind.SameStop (g.operatorsForm power left)
      (g'.operatorsForm power left) := by
  have operation (k : TokenKind) (next : Power) : Takes (depth + 1) (· = k) TokenKind.SameStop
      (g.binary left (rightPower next) >>= g.operators power)
      (g'.binary left (rightPower next) >>= g'.operators power) :=
    (takes_binary leads left _).bind fun e => leads.operators power e
  refine leads_kind (fun k _ => ?_) fun c d e differ alike ran => ?_
  · split
    · split
      · exact (operation k _).toLeads
      · exact leads_pure left
    · exact leads_pure left
  · have stops : d.kind.power? = none := alike.resolve_left differ
    rw [stops]
    -- What stops at once took no operator, so it gives its left operand.
    cases here : c.kind.power? with
    | none =>
        rw [here] at ran
        cases ran
        rfl
    | some next =>
        simp only [here] at ran
        split at ran
        · exact absurd ((operation _ next).advances c e c rfl ran) (Nat.lt_irrefl _)
        · cases ran
          rfl

theorem takes_exprForm (power : Power) :
    Takes (depth + 1) Anywhere TokenKind.SameStop (g.exprForm power) (g'.exprForm power) :=
  (takes_operand leads).bind fun e => leads.operators power e

theorem leads_parenthesized : Parser.Leads depth start Eq g.parenthesized g'.parenthesized := by
  refine (takes_expect (by simp)).toLeads.bind fun _ => (leads.exprEq _).bind fun _ => ?_
  exact (takes_expect (by simp)).toLeads.bind fun _ => leads_pure _

/-- The end of a simple statement: an expression and a semicolon. -/
private theorem leads_value {α : Type} (result : Expr → α) :
    Parser.Leads depth Anywhere Eq
      (do let e ← g.expr .lowest; let _ ← expect .semicolon; return result e)
      (do let e ← g'.expr .lowest; let _ ← expect .semicolon; return result e) := by
  refine (leads.exprEq _).bind fun _ => ?_
  exact (takes_expect (by simp)).toLeads.bind fun _ => leads_pure _

theorem takes_declaration (notAtEnd : ¬ start .eof) :
    Takes (depth + 1) start Eq g.declaration g'.declaration := by
  refine (takes_take notAtEnd).bind fun _ => ?_
  refine (takes_expectFor (by simp) _).toLeads.bind fun _ => ?_
  exact (takes_expect (by simp)).toLeads.bind fun _ => leads_value leads _

theorem takes_assignment : Takes (depth + 1) start Eq g.assignment g'.assignment := by
  refine (takes_expectFor (by simp) _).bind fun _ => ?_
  exact (takes_expectFor (by simp) _).toLeads.bind fun _ => leads_value leads _

theorem takes_printing (notAtEnd : ¬ start .eof) :
    Takes (depth + 1) start Eq g.printing g'.printing :=
  (takes_take notAtEnd).bind fun _ => leads_value leads _

theorem takes_block (notAtEnd : ¬ start .eof) :
    Takes (depth + 1) start Eq g.block g'.block := by
  refine (takes_take notAtEnd).bind fun _ => (leads.stmts _ _).bind fun _ => ?_
  exact (takes_expect (by simp)).toLeads.bind fun _ => leads_pure _

theorem takes_conditional (notAtEnd : ¬ start .eof) :
    Takes (depth + 1) start Eq g.conditional g'.conditional := by
  refine (takes_take notAtEnd).bind fun _ => (leads_parenthesized leads).bind fun _ => ?_
  refine leads.stmt.bind fun _ => leads_kind_eq fun k _ => ?_
  split
  · rename_i another
    refine (takes_take (by simp [another])).toLeads.bind fun _ => ?_
    exact leads.stmt.bind fun _ => leads_pure _
  · exact leads_pure _

theorem takes_looping (notAtEnd : ¬ start .eof) :
    Takes (depth + 1) start Eq g.looping g'.looping := by
  refine (takes_take notAtEnd).bind fun _ => (leads_parenthesized leads).bind fun _ => ?_
  exact leads.stmt.bind fun _ => leads_pure _

theorem takes_switching (notAtEnd : ¬ start .eof) :
    Takes (depth + 1) start Eq g.switching g'.switching := by
  refine (takes_take notAtEnd).bind fun _ => (leads_parenthesized leads).bind fun _ => ?_
  refine (takes_expect (by simp)).toLeads.bind fun _ => (leads.clauses _ _).bind fun _ => ?_
  exact (takes_expect (by simp)).toLeads.bind fun _ => leads_pure _

theorem leads_clausesForm (cases : Cases Stmt) (fallback : Option Stmt) :
    Parser.Leads (depth + 1) Anywhere Eq (g.clausesForm cases fallback)
      (g'.clausesForm cases fallback) := by
  refine leads_kind_eq fun k _ => ?_
  split
  · split
    · exact (takes_refuseFor _).toLeads
    · refine ((takes_take (by simp)).bind fun _ => ?_).toLeads
      refine takes_label.toLeads.shallower.bind fun value => ?_
      refine (takes_expect (by simp)).toLeads.bind fun _ => leads.stmt.bind fun body => ?_
      exact leads.clauses (cases.insert value body) fallback
  · split
    · exact (takes_refuseFor _).toLeads
    · refine ((takes_take (by simp)).bind fun _ => ?_).toLeads
      refine (takes_expect (by simp)).toLeads.bind fun _ => leads.stmt.bind fun body => ?_
      exact leads.clauses cases (some body)
  · exact leads_pure _
  · exact (takes_refuseFor _).toLeads

theorem takes_stmtForm : Takes (depth + 1) start Eq g.stmtForm g'.stmtForm := by
  refine takes_kind fun k => ?_
  split
  · exact takes_declaration leads (by simp)
  · exact takes_assignment leads
  · exact takes_printing leads (by simp)
  · exact takes_block leads (by simp)
  · exact takes_conditional leads (by simp)
  · exact takes_looping leads (by simp)
  · exact takes_switching leads (by simp)
  · exact takes_refuseFor _

theorem leads_stmtsForm (inBlock : Bool) (done : Array Stmt) :
    Parser.Leads (depth + 1) Anywhere Eq (g.stmtsForm inBlock done)
      (g'.stmtsForm inBlock done) := by
  refine leads_kind_eq fun k _ => ?_
  split
  · exact leads_pure _
  · exact ((takes_stmtForm leads).bind fun s => leads.stmts inBlock (done.push s)).toLeads

/-- Grammars that read alike to some depth read alike one level deeper. -/
theorem Leads.extend : g.extend.Leads (depth + 1) g'.extend where
  expr power := (takes_exprForm leads power).toLeads
  operators power left := leads_operatorsForm leads power left
  stmt := (takes_stmtForm leads).toLeads
  stmts inBlock done := leads_stmtsForm leads inBlock done
  clauses cases fallback := leads_clausesForm leads cases fallback

end

theorem leads_empty (g' : Grammar) : empty.Leads 0 g' where
  expr _ := moves_refuse.leads _
  operators _ _ := moves_refuse.leads _
  stmt := (moves_refuseFor _).leads _
  stmts _ _ := (moves_refuseFor _).leads _
  clauses _ _ := moves_refuse.leads _

theorem Leads.zero (leads : g.Leads depth g') (g'' : Grammar) : g.Leads 0 g'' where
  expr power := (leads.expr power).moves.leads _
  operators power left := (leads.operators power left).moves.leads _
  stmt := leads.stmt.moves.leads _
  stmts inBlock done := (leads.stmts inBlock done).moves.leads _
  clauses cases fallback := (leads.clauses cases fallback).moves.leads _

/-- Grammars of two depths read alike whatever is shorter than both. What lies below the
second one does not matter. -/
theorem leads_repeat (n m : Nat) (g : Grammar) :
    (nested n).Leads (min n m) (Nat.repeat Grammar.extend m g) := by
  induction n generalizing m with
  | zero => exact (Nat.zero_min m).symm ▸ leads_empty _
  | succ n ih =>
      cases m with
      | zero => exact (Nat.min_zero (n + 1)).symm ▸ (ih n).extend.zero _
      | succ m => exact (Nat.succ_min_succ n m).symm ▸ (ih m).extend

theorem leads_nested (n m : Nat) : (nested n).Leads (min n m) (nested m) := leads_repeat n m empty

/-- The grammar with as many levels as a text needs. -/
def full : Grammar where
  expr power c := (forCursor c).expr power c
  operators power left c := (forCursor c).operators power left c
  stmt c := (forCursor c).stmt c
  stmts inBlock done c := (forCursor c).stmts inBlock done c
  clauses cases fallback c := (forCursor c).clauses cases fallback c

/-- A part that is led at every number of levels is led with as many levels as the
text needs: what is passed is shorter than what lies ahead on both sides. -/
private theorem leads_forCursor {α : Type} {same : TokenKind → TokenKind → Prop}
    (part : Grammar → Parser α)
    (leads : ∀ n m, Parser.Leads (min n m) Anywhere same (part (nested n)) (part (nested m)))
    (depth : Nat) :
    Parser.Leads depth Anywhere same (fun c => part (forCursor c) c)
      (fun c => part (forCursor c) c) := by
  refine ⟨fun c here => (leads _ 0).moves c here, ?_⟩
  intro c d c' d' seg result _ _ _ ran passes passes' alike
  refine (leads (c.ahead.length + 1) (d.ahead.length + 1)).follows c d c' d' seg result trivial
    trivial ?_ ran passes passes' alike
  have inC := passes.length_ahead
  have inD := passes'.length_ahead
  omega

/-- A grammar deep enough for a text leads the full one there. -/
private theorem leads_of_nested {α : Type} {same : TokenKind → TokenKind → Prop}
    (part : Grammar → Parser α)
    (leads : ∀ n m, Parser.Leads (min n m) Anywhere same (part (nested n)) (part (nested m)))
    (n : Nat) :
    Parser.Leads n Anywhere same (part (nested n)) (fun c => part (forCursor c) c) := by
  refine ⟨(leads n 0).moves, ?_⟩
  intro c d c' d' seg result _ _ short ran passes passes' alike
  refine (leads n (d.ahead.length + 1)).follows c d c' d' seg result trivial trivial ?_ ran passes
    passes' alike
  have inD := passes'.length_ahead
  omega

theorem leads_full (depth : Nat) : full.Leads depth full where
  expr power := leads_forCursor (·.expr power) (fun n m => (leads_nested n m).expr power) depth
  operators power left :=
    leads_forCursor (·.operators power left) (fun n m => (leads_nested n m).operators power left) depth
  stmt := leads_forCursor (·.stmt) (fun n m => (leads_nested n m).stmt) depth
  stmts inBlock done :=
    leads_forCursor (·.stmts inBlock done) (fun n m => (leads_nested n m).stmts inBlock done) depth
  clauses cases fallback := leads_forCursor (·.clauses cases fallback)
    (fun n m => (leads_nested n m).clauses cases fallback) depth

theorem leads_nested_full (n : Nat) : (nested n).Leads n full where
  expr power := leads_of_nested (·.expr power) (fun n m => (leads_nested n m).expr power) n
  operators power left :=
    leads_of_nested (·.operators power left) (fun n m => (leads_nested n m).operators power left) n
  stmt := leads_of_nested (·.stmt) (fun n m => (leads_nested n m).stmt) n
  stmts inBlock done :=
    leads_of_nested (·.stmts inBlock done) (fun n m => (leads_nested n m).stmts inBlock done) n
  clauses cases fallback := leads_of_nested (·.clauses cases fallback)
    (fun n m => (leads_nested n m).clauses cases fallback) n

/-- What follows a part at every depth that a text needs, is that part of the full
grammar. -/
private theorem eq_of_leads_forCursor {α : Type} {same : TokenKind → TokenKind → Prop}
    [Std.Refl same] (part : Grammar → Parser α) {y : Parser α}
    (leads : ∀ c, Parser.Leads (c.ahead.length + 1) Anywhere same (part (forCursor c)) y) :
    (fun c => part (forCursor c) c) = y := by
  funext c
  obtain ⟨seg, passes⟩ := (leads c).moves c trivial
  have ahead := passes.length_ahead
  refine ((leads c).follows c c _ _ seg _ trivial trivial (by omega) rfl passes passes ?_).symm
  generalize reached : part (forCursor c) c = outcome
  obtain ⟨e | a, d⟩ := outcome
  · exact (rfl : d.current = d.current)
  · exact Std.Refl.refl d.kind

/-- A grammar deep enough for a text leads the next level of the full one there. -/
private theorem leads_extend_full (c : Cursor) :
    (forCursor c).Leads (c.ahead.length + 1) full.extend :=
  (leads_nested_full c.ahead.length).extend

/-- The full grammar is its own next level, here and in each of its other parts. -/
theorem full_expr (power : Power) : full.expr power = full.exprForm power :=
  eq_of_leads_forCursor (·.expr power) fun c => (leads_extend_full c).expr power

theorem full_operators (power : Power) (left : Expr) :
    full.operators power left = full.operatorsForm power left :=
  eq_of_leads_forCursor (·.operators power left) fun c => (leads_extend_full c).operators power left

theorem full_stmt : full.stmt = full.stmtForm :=
  eq_of_leads_forCursor (·.stmt) fun c => (leads_extend_full c).stmt

theorem full_stmts (inBlock : Bool) (done : Array Stmt) :
    full.stmts inBlock done = full.stmtsForm inBlock done :=
  eq_of_leads_forCursor (·.stmts inBlock done) fun c => (leads_extend_full c).stmts inBlock done

theorem full_clauses (cases : Cases Stmt) (fallback : Option Stmt) :
    full.clauses cases fallback = full.clausesForm cases fallback :=
  eq_of_leads_forCursor (·.clauses cases fallback) fun c =>
    (leads_extend_full c).clauses cases fallback

end Grammar
end Scriptlet
