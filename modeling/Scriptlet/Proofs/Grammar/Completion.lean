import Scriptlet.Proofs.Grammar.Rereading

/-!
# Completing what a failed parser has passed

A parser that fails stays at the first token that cannot go on from what it has passed:
what it has passed is viable, the beginning of something that it accepts. The completion
is put together form by form. `Parser.Completes` says of the rest of a form that it can
be finished from its start, and from wherever it fails behind its first token;
`Parser.Resumes` says that what stands before the rest is read again when the rest is
finished in another way. All forms are completed by induction on the number of tokens
ahead (`Grammar.mended`).
-/

namespace Scriptlet

open Cursor (Passes)

namespace Parser

variable {α β : Type}

/-- The tokens `seg` begin something that the parser accepts before each kind in
`follow`. -/
def Viable (follow : TokenKind → Prop) (x : Parser α) (seg : List Token) : Prop :=
  ∃ more a, (∀ t ∈ more, t.kind ≠ .eof) ∧
    ∀ c d, c.Passes (seg ++ more) d → follow d.kind → x c = (.ok a, d)

/-- Some tokens are accepted before each kind in `follow`, and a cursor before them is at
a kind in `enter`. -/
def Finishes (enter follow : TokenKind → Prop) (x : Parser α) : Prop :=
  ∃ more a, (∀ t ∈ more, t.kind ≠ .eof) ∧
    ∀ c d, c.Passes more d → follow d.kind → enter c.kind ∧ x c = (.ok a, d)

/-- If the parser fails with fewer than `n` tokens ahead of its start, then the tokens
that it has passed, if any, are viable. -/
def Mends (n : Nat) (start follow : TokenKind → Prop) (x : Parser α) : Prop :=
  ∀ c d e, c.ahead.length < n → start c.kind → x c = (.error e, d) →
    ∃ seg, c.Passes seg d ∧ (seg ≠ [] → Viable follow x seg)

/-- Wherever the parser fails, there is a way to go on. -/
structure Completes (n : Nat) (enter follow : TokenKind → Prop) (x : Parser α) : Prop where
  mends : Mends n Anywhere follow x
  finishes : Finishes enter follow x

/-- What the parser reads, it reads again wherever the same tokens lie ahead, before the
same kind or before one in `between`. -/
structure Resumes (start between : TokenKind → Prop) (x : Parser α) : Prop where
  moves : Moves start x
  again : ∀ c d c' d' seg a, start c.kind → x c = (.ok a, c') → c.Passes seg c' →
    d.Passes seg d' → c'.kind = d'.kind ∨ between d'.kind → x d = (.ok a, d')

variable {start enter between follow : TokenKind → Prop} {same : TokenKind → TokenKind → Prop}
variable {n n' : Nat} {x : Parser α} {f : α → Parser β}
variable {c m d : Cursor} {seg rest : List Token} {t : Token} {a : α}

theorem Leads.resumes (leads : ∀ depth, Leads depth Anywhere same x x)
    (coarse : ∀ k k', k = k' ∨ between k' → same k k') : Resumes Anywhere between x := by
  refine ⟨(leads 0).moves, ?_⟩
  intro c d c' d' seg a _ ran passes passes' behind
  exact (leads (seg.length + 1)).follows c d c' d' seg _ trivial trivial (Nat.lt_succ_self _) ran
    passes passes' (coarse _ _ behind)

/-- A parser that passes a token starts at the same kind when it reads again. -/
theorem Takes.resumes (takes : ∀ depth, Takes (depth + 1) start same x x)
    (coarse : ∀ k k', k = k' ∨ between k' → same k k') : Resumes start between x := by
  refine ⟨(takes 0).moves, ?_⟩
  intro c d c' d' seg a atC ran passes passes' behind
  have atD : start d.kind := by
    have more := (takes 0).advances c a c' atC ran
    have passed := passes.passed
    cases seg with
    | nil => exact absurd passed (Nat.ne_of_gt more)
    | cons t seg => rwa [passes'.kind_eq, ← passes.kind_eq]
  exact (takes seg.length).follows c d c' d' seg _ atC atD (Nat.lt_succ_self _) ran passes passes'
    (coarse _ _ behind)

theorem Finishes.viable (finishes : Finishes enter follow x) : Viable follow x [] := by
  obtain ⟨more, a, unended, accepts⟩ := finishes
  exact ⟨more, a, unended, fun c d passes ends => (accepts c d passes ends).2⟩

theorem Completes.viable (completes : Completes n enter follow x) {e : SyntaxError}
    (few : c.ahead.length < n) (failed : x c = (.error e, d)) :
    ∃ seg, c.Passes seg d ∧ Viable follow x seg := by
  obtain ⟨seg, passes, mended⟩ := completes.mends c d e few trivial failed
  refine ⟨seg, passes, ?_⟩
  by_cases none : seg = []
  · exact none ▸ completes.finishes.viable
  · exact mended none

theorem Finishes.mono (finishes : Finishes enter follow x) (coarse : ∀ k, enter k → between k) :
    Finishes between follow x := by
  obtain ⟨more, a, unended, accepts⟩ := finishes
  refine ⟨more, a, unended, fun c d passes ends => ?_⟩
  obtain ⟨entered, read⟩ := accepts c d passes ends
  exact ⟨coarse _ entered, read⟩

theorem Finishes.bind (first : Finishes enter between x)
    (next : ∀ a, Finishes between follow (f a)) : Finishes enter follow (x >>= f) := by
  obtain ⟨more, a, unended, accepts⟩ := first
  obtain ⟨more', b, unended', accepts'⟩ := next a
  refine ⟨more ++ more', b, List.forall_mem_append.mpr ⟨unended, unended'⟩, ?_⟩
  intro c d passes ends
  obtain ⟨m, passes₁, passes₂⟩ := passes.split
  obtain ⟨entered, ran₂⟩ := accepts' m d passes₂ ends
  obtain ⟨started, ran₁⟩ := accepts c m passes₁ entered
  exact ⟨started, (Attempt.bind_ok ran₁ f).trans ran₂⟩

/-- Where the first step is completed, the second one can be finished. -/
theorem Viable.bind (viable : Viable between x seg) (next : ∀ a, Finishes between follow (f a)) :
    Viable follow (x >>= f) seg := by
  obtain ⟨more, a, unended, accepts⟩ := viable
  obtain ⟨more', b, unended', accepts'⟩ := next a
  refine ⟨more ++ more', b, List.forall_mem_append.mpr ⟨unended, unended'⟩, ?_⟩
  intro c d passes ends
  rw [← List.append_assoc] at passes
  obtain ⟨m, passes₁, passes₂⟩ := passes.split
  obtain ⟨entered, ran₂⟩ := accepts' m d passes₂ ends
  rw [Attempt.bind_ok (accepts c m passes₁ entered), ran₂]

/-- Behind what the first step has read, the second one can be finished. -/
theorem Resumes.viable (resumes : Resumes start between x) (here : start c.kind)
    (ran : x c = (.ok a, m)) (passes : c.Passes seg m) (next : Finishes between follow (f a)) :
    Viable follow (x >>= f) seg := by
  obtain ⟨more, b, unended, accepts⟩ := next
  refine ⟨more, b, unended, fun c' d' passes' ends => ?_⟩
  obtain ⟨m', passes₁', passes₂'⟩ := passes'.split
  obtain ⟨entered, ran₂⟩ := accepts m' d' passes₂' ends
  have again := resumes.again c c' m m' seg a here ran passes passes₁' (.inr entered)
  rw [Attempt.bind_ok again, ran₂]

/-- If the second step has passed a token, then the first one stops at this token again. -/
theorem Resumes.viable_append (resumes : Resumes start between x) (here : start c.kind)
    (ran : x c = (.ok a, m)) (passes : c.Passes seg m) (behind : m.Passes (t :: rest) d)
    (viable : Viable follow (f a) (t :: rest)) : Viable follow (x >>= f) (seg ++ t :: rest) := by
  obtain ⟨more, b, unended, accepts⟩ := viable
  refine ⟨more, b, unended, fun c' d' passes' ends => ?_⟩
  rw [List.append_assoc] at passes'
  obtain ⟨m', passes₁', passes₂'⟩ := passes'.split
  have sameKind : m.kind = m'.kind := behind.kind_eq.trans passes₂'.kind_eq.symm
  have again := resumes.again c c' m m' seg a here ran passes passes₁' (.inl sameKind)
  rw [Attempt.bind_ok again, accepts m' d' passes₂' ends]

/-- The rule for sequences: whichever step fails, both are completed. The second step has
to mend where the first one leaves it. -/
theorem Mends.bindTo (first : Mends n start between x) (resumes : Resumes start between x)
    (next : ∀ a, Completes n' between follow (f a))
    (shorter : ∀ c a d, start c.kind → x c = (.ok a, d) → c.ahead.length < n →
      d.ahead.length < n') : Mends n start follow (x >>= f) := by
  intro c d e few here failed
  rcases ran : x c with ⟨e' | a, m⟩
  · rw [Attempt.bind_error ran] at failed
    cases failed
    obtain ⟨seg, passes, mended⟩ := first c d e few here ran
    exact ⟨seg, passes, fun nonempty => (mended nonempty).bind fun a => (next a).finishes⟩
  · rw [Attempt.bind_ok ran] at failed
    have few' := shorter c a m here ran few
    obtain ⟨seg, passes⟩ := resumes.moves.passes here ran
    obtain ⟨rest, behind, mended⟩ := (next a).mends m d e few' trivial failed
    refine ⟨seg ++ rest, passes.trans behind, fun _ => ?_⟩
    cases rest with
    | nil =>
        rw [List.append_nil]
        exact resumes.viable here ran passes (next a).finishes
    | cons t rest =>
        exact resumes.viable_append here ran passes behind (mended (List.cons_ne_nil t rest))

theorem Mends.bind (first : Mends n Anywhere between x) (resumes : Resumes Anywhere between x)
    (next : ∀ a, Completes n between follow (f a)) : Mends n Anywhere follow (x >>= f) := by
  refine first.bindTo resumes next fun c a d here ran few => ?_
  obtain ⟨seg, passes⟩ := resumes.moves.passes here ran
  have ahead := passes.length_ahead
  omega

theorem Completes.bind (first : Completes n enter between x)
    (resumes : Resumes Anywhere between x) (next : ∀ a, Completes n between follow (f a)) :
    Completes n enter follow (x >>= f) :=
  ⟨first.mends.bind resumes next, first.finishes.bind fun a => (next a).finishes⟩

/-- Behind a step that passes a token, fewer tokens are ahead. -/
theorem Mends.bindBehind (first : Mends (n + 1) start between x) (resumes : Resumes start between x)
    (advances : Advances start x) (next : ∀ a, Completes n between follow (f a)) :
    Mends (n + 1) start follow (x >>= f) := by
  refine first.bindTo resumes next fun c a d here ran few => ?_
  have more := advances c a d here ran
  obtain ⟨seg, passes⟩ := resumes.moves.passes here ran
  have ahead := passes.length_ahead
  have passed := passes.passed
  omega

theorem mends_pure (a : α) : Mends n start follow (pure a) :=
  fun _ _ _ _ _ failed => nomatch failed

theorem finishes_pure (a : α) (coarse : ∀ k, follow k → enter k) :
    Finishes enter follow (pure a) := by
  refine ⟨[], a, List.forall_mem_nil _, fun c d passes ends => ?_⟩
  obtain rfl := passes.eq_of_nil
  exact ⟨coarse _ ends, rfl⟩

theorem completes_pure (a : α) (coarse : ∀ k, follow k → enter k) :
    Completes n enter follow (pure a) := ⟨mends_pure a, finishes_pure a coarse⟩

theorem Mends.fewer (mends : Mends (n + 1) start follow x) : Mends n start follow x :=
  fun c d e few => mends c d e (Nat.lt_succ_of_lt few)

theorem Mends.map (first : Mends n start follow x) (g : α → β) :
    Mends n start follow (x >>= fun a => pure (g a)) := by
  intro c d e few here failed
  rcases ran : x c with ⟨e' | a, m⟩
  · rw [Attempt.bind_error ran] at failed
    cases failed
    obtain ⟨seg, passes, mended⟩ := first c d e few here ran
    refine ⟨seg, passes, fun nonempty => (mended nonempty).bind fun a => ?_⟩
    exact finishes_pure (g a) fun _ ends => ends
  · rw [Attempt.bind_ok ran] at failed
    cases failed

/-- A choice by the next kind. -/
theorem mends_kind {f : TokenKind → Parser α}
    (each : ∀ k, start k → Mends n (· = k) follow (f k)) : Mends n start follow (kind >>= f) := by
  intro c d e few here failed
  obtain ⟨seg, passes, mended⟩ := each c.kind here c d e few rfl failed
  refine ⟨seg, passes, fun nonempty => ?_⟩
  obtain ⟨t, seg, rfl⟩ := List.exists_cons_of_ne_nil nonempty
  obtain ⟨more, a, unended, accepts⟩ := mended nonempty
  refine ⟨more, a, unended, fun c' d' passes' ends => ?_⟩
  rw [kind_bind_apply, passes'.kind_eq, ← passes.kind_eq]
  exact accepts c' d' passes' ends

/-- A parser of one token passes none if it fails. -/
theorem mends_judged (judge : Token → Except SyntaxError α) :
    Mends n start follow (judged judge) := by
  intro c d e _ _ failed
  cases verdict : judge c.current with
  | ok a => simp [judged, verdict] at failed
  | error e' =>
      simp only [judged, verdict, Prod.mk.injEq] at failed
      exact ⟨[], failed.2 ▸ .refl c, fun nonempty => absurd rfl nonempty⟩

theorem completes_judged {judge : Token → Except SyntaxError α}
    (accepted : judge t = .ok a) (notEnd : t.kind ≠ .eof) (entered : enter t.kind) :
    Completes n enter follow (judged judge) := by
  refine ⟨mends_judged judge, [t], a, by simpa using notEnd, fun c d passes _ => ?_⟩
  have step := take_eq_ok passes
  simp only [take, Prod.mk.injEq] at step
  refine ⟨passes.kind_eq ▸ entered, ?_⟩
  simp only [judged, passes.current_eq, accepted, step.2]

theorem mends_refuse : Mends n start follow (refuse : Parser α) := by
  rw [refuse_eq]
  exact mends_judged _

theorem mends_refuseFor (message : String) :
    Mends n start follow (refuseFor message : Parser α) := by
  rw [refuseFor_eq]
  exact mends_judged _

/-- All kinds count as the same. -/
abbrev AnyTwo (_ _ : TokenKind) : Prop := True

instance : Std.Refl AnyTwo := ⟨fun _ => trivial⟩

/-- A parser that sees only what it passes reads that again before every kind. -/
theorem Takes.resumesAnywhere (takes : ∀ depth, Takes (depth + 1) start AnyTwo x x) :
    Resumes start Anywhere x :=
  Takes.resumes takes fun _ _ _ => trivial

theorem mends_take : Mends n start follow take := by
  rw [take_eq]
  exact mends_judged _

theorem mends_take_bind {k : TokenKind} {f : Token → Parser α} (notEnd : k ≠ .eof)
    (next : ∀ t, Completes n Anywhere follow (f t)) :
    Mends (n + 1) (· = k) follow (take >>= f) := by
  have takes (depth : Nat) : Takes (depth + 1) (· = k) AnyTwo take take := takes_take notEnd.symm
  exact mends_take.bindBehind (Takes.resumesAnywhere takes) (takes 0).advances next

theorem completes_expect_bind {k : TokenKind} {f : Token → Parser α} (notEnd : k ≠ .eof)
    (entered : enter k) (next : ∀ t, Completes n Anywhere follow (f t)) :
    Completes n enter follow (expect k >>= f) := by
  have first : Completes n enter Anywhere (expect k) := by
    rw [expect_eq]
    exact completes_judged (t := ⟨k, "", ⟨.null, .null⟩⟩) (if_pos rfl) notEnd entered
  exact first.bind (Takes.resumesAnywhere fun _ => takes_expect notEnd) next

theorem completes_expectFor_bind {k : TokenKind} {message : String} {f : Token → Parser α}
    (notEnd : k ≠ .eof) (entered : enter k) (next : ∀ t, Completes n Anywhere follow (f t)) :
    Completes n enter follow (expectFor k message >>= f) := by
  have first : Completes n enter Anywhere (expectFor k message) := by
    rw [expectFor_eq]
    exact completes_judged (t := ⟨k, "", ⟨.null, .null⟩⟩) (if_pos rfl) notEnd entered
  exact first.bind (Takes.resumesAnywhere fun _ => takes_expectFor notEnd _) next

end Parser

namespace Grammar

open Scriptlet.Parser

/-- No operator, so that an expression ends before it. -/
abbrev EndsExpr (k : TokenKind) : Prop := k.power? = none

/-- No `else`, so that every statement ends before it. -/
abbrev EndsStmt (k : TokenKind) : Prop := k ≠ .elseWord

/-- The end of statements one after the other. -/
abbrev EndsAll (inBlock : Bool) (k : TokenKind) : Prop :=
  k = .eof ∨ inBlock = true ∧ k = .closeCurly

/-- Ahead of fewer than `n` tokens, all parts of the grammar mend. -/
structure Mended (n : Nat) : Prop where
  expr : ∀ power, Mends n Anywhere EndsExpr (full.expr power)
  operators : ∀ power left, Mends n Anywhere EndsExpr (full.operators power left)
  stmt : Mends n Anywhere EndsStmt full.stmt
  stmts : ∀ inBlock done, Mends n Anywhere (EndsAll inBlock) (full.stmts inBlock done)
  clauses : ∀ cases fallback, Mends n Anywhere (· = .closeCurly) (full.clauses cases fallback)

variable {n : Nat} {start enter follow : TokenKind → Prop}

/-- A number, for which any other operand would do. -/
def zero : Token := ⟨.number, "0", ⟨.null, .null⟩⟩

theorem read?_zero : ∃ x, Decimal.read? zero.text.toList = some x := ⟨_, rfl⟩

theorem finishes_operand : Finishes Anywhere follow full.operand := by
  obtain ⟨x, read⟩ := read?_zero
  refine ⟨[zero], .num x, by simp [zero], fun c d passes _ => ⟨trivial, ?_⟩⟩
  exact operand_of_number passes rfl read

theorem finishes_operators (power : Power) (left : Expr) :
    Finishes EndsExpr EndsExpr (full.operators power left) := by
  refine ⟨[], left, List.forall_mem_nil _, fun c d passes ends => ?_⟩
  obtain rfl := passes.eq_of_nil
  exact ⟨ends, operators_of_stopsAt (Power.stopsAt_of_none ends)⟩

theorem finishes_expr (power : Power) : Finishes Anywhere EndsExpr (full.expr power) := by
  rw [full_expr]
  exact finishes_operand.bind (finishes_operators power)

/-- The shortest statement is an empty block. -/
theorem finishes_stmt : Finishes Anywhere follow full.stmt := by
  let opening : Token := ⟨.openCurly, "", ⟨.null, .null⟩⟩
  let closing : Token := ⟨.closeCurly, "", ⟨.null, .null⟩⟩
  refine ⟨[opening, closing], .block [], by simp [opening, closing], fun c d passes _ => ?_⟩
  have written : Writes (opening :: ([] ++ [closing])) (.block []) := .block rfl .nil rfl
  exact ⟨trivial, written.reads passes nofun⟩

theorem finishes_stmts {inBlock : Bool} (done : Array Stmt)
    (coarse : ∀ k, EndsAll inBlock k → enter k) :
    Finishes enter (EndsAll inBlock) (full.stmts inBlock done) := by
  refine ⟨[], done.toList ++ [], List.forall_mem_nil _, fun c d passes ends => ?_⟩
  have read : full.stmts inBlock done c = (.ok (done.toList ++ []), d) :=
    WritesAll.nil.reads passes ends
  exact ⟨coarse _ (passes.eq_of_nil ▸ ends), read⟩

theorem finishes_clauses (cases : Cases Stmt) (fallback : Option Stmt)
    (entered : enter .closeCurly) :
    Finishes enter (· = .closeCurly) (full.clauses cases fallback) := by
  refine ⟨[], (cases, fallback), List.forall_mem_nil _, fun c d passes ends => ?_⟩
  obtain rfl := passes.eq_of_nil
  refine ⟨ends.symm ▸ entered, ?_⟩
  rw [full_clauses, clausesForm, kind_bind_apply, ends]
  rfl

theorem resumes_expr (power : Power) : Resumes Anywhere EndsExpr (full.expr power) :=
  Leads.resumes (fun depth => (leads_full depth).expr power) fun _ _ stops => stops

theorem resumes_stmt : Resumes start EndsStmt full.stmt := by
  refine ⟨fun c _ => (leads_full 0).stmt.moves c trivial, ?_⟩
  intro c d c' d' seg s _ ran passes passes' behind
  rcases behind with equal | notElse
  · exact (leads_full (seg.length + 1)).stmt.follows c d c' d' seg _ trivial trivial
      (Nat.lt_succ_self _) ran passes passes' equal
  · -- Where no `else` follows, the tokens are read as the statement that they write.
    obtain ⟨seg', passes₁, written, -⟩ := readsWritten _ c s c' (Nat.lt_succ_self _) ran
    obtain rfl := passes.seg_unique passes₁
    exact written.reads passes' fun _ => notElse

theorem resumes_stmts (inBlock : Bool) (done : Array Stmt) :
    Resumes Anywhere (EndsAll inBlock) (full.stmts inBlock done) := by
  refine ⟨((leads_full 0).stmts inBlock done).moves, ?_⟩
  intro c d c' d' seg body _ ran passes passes' behind
  obtain ⟨seg', rest, passes₁, written, rfl, stops⟩ :=
    (readsWritten _).stmts (Nat.lt_succ_self _) ran
  obtain rfl := passes.seg_unique passes₁
  refine written.reads passes' ?_
  rcases behind with equal | stops'
  · rwa [← equal]
  · exact stops'

theorem resumes_clauses : Resumes Anywhere (· = .closeCurly) (full.clauses .empty none) := by
  refine ⟨((leads_full 0).clauses .empty none).moves, ?_⟩
  intro c d c' d' seg result _ ran passes passes' behind
  change full.clauses (.ofList []) none c = (.ok result, c') at ran
  have closes : c'.kind = .closeCurly := ((readsWritten _).clauses (Nat.lt_succ_self _) ran).1
  refine ((leads_full (seg.length + 1)).clauses .empty none).follows c d c' d' seg _ trivial trivial
    (Nat.lt_succ_self _) ran passes passes' ?_
  rcases behind with equal | closes'
  · exact equal
  · exact closes.trans closes'.symm

theorem mends_numeral : Mends n start follow numeral := by
  rw [numeral_eq]
  exact mends_judged _

theorem mends_truthValue : Mends n start follow truthValue := mends_take.map _

theorem mends_primary : Mends n start follow primary := by
  refine mends_kind fun k _ => ?_
  split
  · exact mends_numeral.map _
  · exact mends_truthValue.map _
  · exact mends_take.map _
  · exact mends_refuse

theorem completes_typeName : Completes n Anywhere follow typeName := by
  rw [typeName_eq]
  let name : Token := ⟨.typeName, Ty.num.name, ⟨.null, .null⟩⟩
  refine completes_judged (t := name) (a := .num) ?_ nofun trivial
  simp [name]

theorem mends_inputRead : Mends (n + 1) (· = .inputWord) follow inputRead := by
  refine mends_take_bind (by simp) fun _ => completes_expect_bind (by simp) trivial fun _ => ?_
  refine completes_typeName.bind (Takes.resumesAnywhere fun _ => takes_typeName) fun _ => ?_
  exact completes_expect_bind (by simp) trivial fun _ => completes_pure _ fun _ _ => trivial

theorem mends_unsignedLabel (negative : Bool) : Mends n start follow (unsignedLabel negative) := by
  refine mends_kind fun k _ => ?_
  split
  · exact mends_numeral.map _
  · split
    · exact mends_refuseFor _
    · exact mends_truthValue.map _
  · exact mends_refuseFor _

theorem finishes_unsignedLabel (negative : Bool) :
    Finishes (· = .number) follow (unsignedLabel negative) := by
  obtain ⟨x, read⟩ := read?_zero
  refine ⟨[zero], .num (if negative then -x else x), by simp [zero], fun c d passes _ => ?_⟩
  refine ⟨passes.kind_eq, ?_⟩
  rw [unsignedLabel, kind_bind_apply, passes.kind_eq]
  exact Attempt.bind_ok (numeral_eq_ok passes read) _

theorem completes_label : Completes n Anywhere follow label := by
  rw [label_eq]
  constructor
  · refine Mends.fewer (mends_kind fun k _ => ?_)
    split
    · rename_i negative
      refine mends_take_bind (by simp [negative]) fun _ => ⟨mends_unsignedLabel true, ?_⟩
      exact (finishes_unsignedLabel true).mono fun _ _ => trivial
    · exact mends_unsignedLabel false
  · obtain ⟨more, v, unended, accepts⟩ := finishes_unsignedLabel false
    refine ⟨more, v, unended, fun c d passes ends => ⟨trivial, ?_⟩⟩
    obtain ⟨number, read⟩ := accepts c d passes ends
    rw [kind_bind_apply, number, if_neg (by simp), read]

section

variable (mended : Mended n)
include mended

theorem completes_expr (power : Power) : Completes n Anywhere EndsExpr (full.expr power) :=
  ⟨mended.expr power, finishes_expr power⟩

theorem completes_operators (power : Power) (left : Expr) :
    Completes n EndsExpr EndsExpr (full.operators power left) :=
  ⟨mended.operators power left, finishes_operators power left⟩

theorem completes_stmt : Completes n Anywhere EndsStmt full.stmt := ⟨mended.stmt, finishes_stmt⟩

theorem mends_unary : Mends (n + 1) start EndsExpr full.unary := by
  refine mends_kind fun k _ => ?_
  split
  · rename_i op prefixed
    refine mends_take_bind ?_ fun _ => (completes_expr mended _).bind (resumes_expr _) fun _ => ?_
    · rintro rfl
      cases prefixed
    · exact completes_pure _ fun _ ends => ends
  · exact mends_refuse

theorem mends_grouping : Mends (n + 1) (· = .openParen) follow full.grouping := by
  refine mends_take_bind (by simp) fun _ => ?_
  refine (completes_expr mended _).bind (resumes_expr _) fun _ => ?_
  exact completes_expect_bind (by simp) rfl fun _ => completes_pure _ fun _ _ => trivial

theorem mends_operand : Mends (n + 1) start EndsExpr full.operand := by
  refine mends_kind fun k _ => ?_
  split
  · exact mends_primary
  · exact mends_primary
  · exact mends_primary
  · exact mends_inputRead
  · exact mends_unary mended
  · exact mends_unary mended
  · exact mends_grouping mended
  · exact mends_refuse

theorem mends_binary (left : Expr) (power : Power) :
    Mends (n + 1) start EndsExpr (full.binary left power) := by
  refine mends_kind fun k _ => ?_
  split
  · rename_i op infixed
    refine mends_take_bind ?_ fun _ => (completes_expr mended _).bind (resumes_expr _) fun _ => ?_
    · rintro rfl
      cases infixed
    · exact completes_pure _ fun _ ends => ends
  · exact mends_refuse

theorem mends_operatorsForm (power : Power) (left : Expr) :
    Mends (n + 1) Anywhere EndsExpr (full.operatorsForm power left) := by
  refine mends_kind fun k _ => ?_
  split
  · split
    · rename_i next _ _
      have takes (depth : Nat) : Takes (depth + 1) (· = k) TokenKind.SameStop
          (full.binary left (rightPower next)) (full.binary left (rightPower next)) :=
        takes_binary (leads_full depth) left _
      exact (mends_binary mended left _).bindBehind (Takes.resumes takes fun _ _ stops => stops)
        (takes 0).advances fun e => completes_operators mended power e
    · exact mends_pure left
  · exact mends_pure left

theorem mends_exprForm (power : Power) : Mends (n + 1) Anywhere EndsExpr (full.exprForm power) := by
  have takes (depth : Nat) :
      Takes (depth + 1) Anywhere TokenKind.SameStop full.operand full.operand :=
    takes_operand (leads_full depth)
  exact (mends_operand mended).bindBehind (Takes.resumes takes fun _ _ stops => stops)
    (takes 0).advances fun e => completes_operators mended power e

theorem completes_parenthesized_bind {α : Type} {f : Expr → Parser α}
    (next : ∀ e, Completes n Anywhere follow (f e)) :
    Completes n Anywhere follow (full.parenthesized >>= f) := by
  simp only [parenthesized, Attempt.bind_assoc]
  refine completes_expect_bind (by simp) trivial fun _ => ?_
  refine (completes_expr mended _).bind (resumes_expr _) fun e => ?_
  exact completes_expect_bind (by simp) rfl fun _ => next e

/-- The end of a simple statement: an expression and a semicolon. -/
theorem completes_value {α : Type} (result : Expr → α) :
    Completes n Anywhere follow
      (do let e ← full.expr .lowest; let _ ← expect .semicolon; return result e) := by
  refine (completes_expr mended _).bind (resumes_expr _) fun _ => ?_
  exact completes_expect_bind (by simp) rfl fun _ => completes_pure _ fun _ _ => trivial

theorem mends_declaration : Mends (n + 1) (· = .declareWord) follow full.declaration := by
  refine mends_take_bind (by simp) fun _ => completes_expectFor_bind (by simp) trivial fun _ => ?_
  exact completes_expect_bind (by simp) trivial fun _ => completes_value mended _

theorem mends_assignment : Mends (n + 1) start follow full.assignment := by
  have takes (depth : Nat) (message : String) : Takes (depth + 1) start AnyTwo
      (expectFor .identifier message) (expectFor .identifier message) :=
    takes_expectFor (by simp) message
  refine Mends.bindBehind ?_ (Takes.resumesAnywhere fun depth => takes depth _) (takes 0 _).advances
    fun _ => ?_
  · rw [expectFor_eq]
    exact mends_judged _
  · exact completes_expectFor_bind (by simp) trivial fun _ => completes_value mended _

theorem mends_printing : Mends (n + 1) (· = .printWord) follow full.printing :=
  mends_take_bind (by simp) fun _ => completes_value mended _

theorem mends_block : Mends (n + 1) (· = .openCurly) follow full.block := by
  refine mends_take_bind (by simp) fun _ => ?_
  have body : Completes n Anywhere (EndsAll true) (full.stmts true #[]) :=
    ⟨mended.stmts true #[], finishes_stmts _ fun _ _ => trivial⟩
  refine body.bind (resumes_stmts true #[]) fun _ => ?_
  refine completes_expect_bind (by simp) (.inr ⟨rfl, rfl⟩) fun _ => ?_
  exact completes_pure _ fun _ _ => trivial

theorem mends_conditional : Mends (n + 1) (· = .ifWord) EndsStmt full.conditional := by
  refine mends_take_bind (by simp) fun _ => completes_parenthesized_bind mended fun e => ?_
  refine (completes_stmt mended).bind resumes_stmt fun s => ⟨mends_kind fun k _ => ?_, ?_⟩
  · split
    · rename_i another
      refine Mends.fewer (mends_take_bind (by simp [another]) fun _ => ?_)
      exact (completes_stmt mended).bind resumes_stmt fun _ => completes_pure _ fun _ ends => ends
    · exact mends_pure _
  · -- A conditional whose branch has ended may end with it.
    refine ⟨[], .branch e s none, List.forall_mem_nil _, fun c d passes ends => ?_⟩
    obtain rfl := passes.eq_of_nil
    refine ⟨ends, ?_⟩
    rw [kind_bind_apply, if_neg ends]
    rfl

theorem mends_looping : Mends (n + 1) (· = .whileWord) EndsStmt full.looping := by
  refine mends_take_bind (by simp) fun _ => completes_parenthesized_bind mended fun _ => ?_
  exact (completes_stmt mended).bind resumes_stmt fun _ => completes_pure _ fun _ ends => ends

theorem mends_switching : Mends (n + 1) (· = .switchWord) follow full.switching := by
  refine mends_take_bind (by simp) fun _ => completes_parenthesized_bind mended fun _ => ?_
  refine completes_expect_bind (by simp) trivial fun _ => ?_
  have clauses : Completes n Anywhere (· = .closeCurly) (full.clauses .empty none) :=
    ⟨mended.clauses .empty none, finishes_clauses _ _ trivial⟩
  refine clauses.bind resumes_clauses fun _ => ?_
  exact completes_expect_bind (by simp) rfl fun _ => completes_pure _ fun _ _ => trivial

/-- A statement and the clauses behind it. -/
theorem completes_clause (clauses : Stmt → Cases Stmt × Option Stmt) :
    Completes n Anywhere (· = .closeCurly)
      (full.stmt >>= fun body => full.clauses (clauses body).1 (clauses body).2) := by
  refine (completes_stmt mended).bind resumes_stmt fun body => ?_
  exact ⟨mended.clauses _ _, finishes_clauses _ _ (by simp)⟩

theorem mends_clausesForm (cases : Cases Stmt) (fallback : Option Stmt) :
    Mends (n + 1) Anywhere (· = .closeCurly) (full.clausesForm cases fallback) := by
  refine mends_kind fun k _ => ?_
  split
  · split
    · exact mends_refuseFor _
    · refine mends_take_bind (by simp) fun _ => ?_
      refine completes_label.bind (Takes.resumesAnywhere fun _ => takes_label) fun value => ?_
      refine completes_expect_bind (by simp) trivial fun _ => ?_
      exact completes_clause mended fun body => (cases.insert value body, fallback)
  · split
    · exact mends_refuseFor _
    · refine mends_take_bind (by simp) fun _ => completes_expect_bind (by simp) trivial fun _ => ?_
      exact completes_clause mended fun body => (cases, some body)
  · exact mends_pure _
  · exact mends_refuseFor _

theorem mends_stmtForm : Mends (n + 1) start EndsStmt full.stmtForm := by
  refine mends_kind fun k _ => ?_
  split
  · exact mends_declaration mended
  · exact mends_assignment mended
  · exact mends_printing mended
  · exact mends_block mended
  · exact mends_conditional mended
  · exact mends_looping mended
  · exact mends_switching mended
  · exact mends_refuseFor _

theorem mends_stmtsForm (inBlock : Bool) (done : Array Stmt) :
    Mends (n + 1) Anywhere (EndsAll inBlock) (full.stmtsForm inBlock done) := by
  refine mends_kind fun k _ => ?_
  split
  · exact mends_pure _
  · have takes : Takes 1 (· = k) Eq full.stmtForm full.stmtForm := takes_stmtForm (leads_full 0)
    refine (mends_stmtForm mended).bindBehind (full_stmt ▸ resumes_stmt) takes.advances fun s => ?_
    refine ⟨mended.stmts inBlock (done.push s), finishes_stmts _ fun k ends => ?_⟩
    rcases ends with rfl | ⟨-, rfl⟩ <;> simp

theorem Mended.succ : Mended (n + 1) where
  expr power := full_expr power ▸ mends_exprForm mended power
  operators power left := full_operators power left ▸ mends_operatorsForm mended power left
  stmt := full_stmt ▸ mends_stmtForm mended
  stmts inBlock done := full_stmts inBlock done ▸ mends_stmtsForm mended inBlock done
  clauses cases fallback := full_clauses cases fallback ▸ mends_clausesForm mended cases fallback

end

theorem mended (n : Nat) : Mended n := by
  induction n with
  | zero =>
      have none {α : Type} {follow : TokenKind → Prop} (x : Parser α) : Mends 0 Anywhere follow x :=
        fun c d e few => absurd few (Nat.not_lt_zero _)
      exact ⟨fun _ => none _, fun _ _ => none _, none _, fun _ _ => none _, fun _ _ => none _⟩
  | succ n ih => exact ih.succ

/-- What is passed when the statements of a stream fail begins statements of some other
stream. -/
theorem viable_of_stmts {c d : Cursor} {e : SyntaxError}
    (failed : full.stmts false #[] c = (.error e, d)) :
    ∃ seg, c.Passes seg d ∧ Viable (EndsAll false) (full.stmts false #[]) seg := by
  have completes : Completes (c.ahead.length + 1) Anywhere (EndsAll false) (full.stmts false #[]) :=
    ⟨(mended _).stmts false #[], finishes_stmts _ fun _ _ => trivial⟩
  exact completes.viable (Nat.lt_succ_self _) failed

end Grammar
end Scriptlet
