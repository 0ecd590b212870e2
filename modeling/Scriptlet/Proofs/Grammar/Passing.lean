import Scriptlet.Grammar.Form
import Scriptlet.Proofs.Contract

/-!
# What a parser passes and what it sees

A parser passes a stretch of tokens, never an end of input, and sees nothing
behind it but the one token at which it stops. `Parser.Follows` says so of two
parsers at once: the second does at another place, where the same stretch lies
ahead, what the first one did. With one parser on both sides this is locality; at
one place on both sides it says that two grammars agree there. The rules for
sequences and for choices by the next kind carry it through every form.
-/

namespace Scriptlet

namespace Cursor

/-- The cursor `d` stands behind the tokens `seg`, which lie ahead of `c` and of
which none is an end of input. -/
structure Passes (c : Cursor) (seg : List Token) (d : Cursor) : Prop where
  ahead : c.ahead = seg ++ d.ahead
  passed : d.passed = c.passed + seg.length
  final : d.final = c.final
  unended : ∀ t ∈ seg, t.kind ≠ .eof

namespace Passes

variable {c d e c' d' : Cursor} {seg seg' : List Token} {t : Token}

theorem refl (c : Cursor) : c.Passes [] c := ⟨rfl, rfl, rfl, by simp⟩

theorem trans (first : c.Passes seg d) (second : d.Passes seg' e) : c.Passes (seg ++ seg') e := by
  refine ⟨?_, ?_, second.final.trans first.final, ?_⟩
  · rw [first.ahead, second.ahead, List.append_assoc]
  · rw [second.passed, first.passed, List.length_append, Nat.add_assoc]
  · exact List.forall_mem_append.mpr ⟨first.unended, second.unended⟩

theorem unique (first : c.Passes seg d) (second : c.Passes seg d') : d = d' := by
  have ahead : d.ahead = d'.ahead := List.append_cancel_left (first.ahead.symm.trans second.ahead)
  have passed : d.passed = d'.passed := first.passed.trans second.passed.symm
  have final : d.final = d'.final := first.final.trans second.final.symm
  cases d
  cases d'
  simp_all

theorem eq_of_nil (passes : c.Passes [] d) : d = c := passes.unique (refl c)

theorem seg_unique (first : c.Passes seg d) (second : c.Passes seg' d) : seg = seg' :=
  List.append_cancel_right (first.ahead.symm.trans second.ahead)

/-- Every stretch ahead without an end of input can be passed. -/
theorem exists_of_ahead {rest : List Token} (ahead : c.ahead = seg ++ rest)
    (unended : ∀ t ∈ seg, t.kind ≠ .eof) : ∃ d, c.Passes seg d ∧ d.ahead = rest :=
  ⟨⟨c.passed + seg.length, rest, c.final, c.final_kind⟩, ⟨ahead, rfl, rfl, unended⟩, rfl⟩

theorem split (passes : c.Passes (seg ++ seg') e) :
    ∃ d, c.Passes seg d ∧ d.Passes seg' e := by
  have both := List.forall_mem_append.mp passes.unended
  obtain ⟨d, first, behind⟩ :=
    exists_of_ahead (passes.ahead.trans (List.append_assoc ..)) both.1
  refine ⟨d, first, behind, ?_, passes.final.trans first.final.symm, both.2⟩
  rw [passes.passed, first.passed, List.length_append, Nat.add_assoc]

theorem uncons (passes : c.Passes (t :: seg) e) : ∃ d, c.Passes [t] d ∧ d.Passes seg e :=
  split passes

theorem current_eq (passes : c.Passes (t :: seg) d) : c.current = t := by
  simp [Cursor.current, passes.ahead]

theorem kind_eq (passes : c.Passes (t :: seg) d) : c.kind = t.kind := by
  rw [Cursor.kind, passes.current_eq]

theorem advance (notEnd : c.kind ≠ .eof) : c.Passes [c.current] c.advance := by
  refine ⟨?_, rfl, rfl, List.forall_mem_singleton.mpr notEnd⟩
  obtain ⟨t, rest, ahead⟩ := List.exists_cons_of_ne_nil (ahead_ne_nil notEnd)
  simp [Cursor.advance, Cursor.current, ahead]

theorem current_mem (notEnd : c.kind ≠ .eof) : c.current ∈ c.ahead := by
  rw [(advance notEnd).ahead]
  exact List.mem_cons_self

theorem subset (passes : c.Passes seg d) : d.ahead ⊆ c.ahead := by
  rw [passes.ahead]
  exact List.subset_append_right seg d.ahead

theorem length_ahead (passes : c.Passes seg d) :
    c.ahead.length = seg.length + d.ahead.length := by
  rw [passes.ahead, List.length_append]

/-- Where one stretch lies ahead of two cursors and the same token behind it, the
two stand at the same token. -/
theorem current_congr (first : c.Passes seg c') (second : d.Passes seg d')
    (same : c'.current = d'.current) : c.current = d.current := by
  cases seg with
  | nil => rwa [first.eq_of_nil, second.eq_of_nil] at same
  | cons t seg => rw [first.current_eq, second.current_eq]

/-- A relation between the kinds behind one stretch holds between the kinds before
it, if it holds of equal kinds. -/
theorem kind_congr {same : TokenKind → TokenKind → Prop} (reflexive : ∀ k, same k k)
    (first : c.Passes seg c') (second : d.Passes seg d') (behind : same c'.kind d'.kind) :
    same c.kind d.kind := by
  cases seg with
  | nil => rwa [first.eq_of_nil, second.eq_of_nil] at behind
  | cons t seg =>
      rw [first.kind_eq, second.kind_eq]
      exact reflexive t.kind

end Passes
end Cursor

namespace Parser

open Cursor (Passes)

variable {α β : Type}

/-- At a token of a kind in `start` the parser passes tokens, whether it succeeds
or fails. -/
def Moves (start : TokenKind → Prop) (x : Parser α) : Prop :=
  ∀ c : Cursor, start c.kind → ∃ seg, c.Passes seg (x c).2

/-- At a token of a kind in `start` the parser passes a token if it succeeds. -/
def Advances (start : TokenKind → Prop) (x : Parser α) : Prop :=
  ∀ (c : Cursor) (a : α) (d : Cursor), start c.kind → x c = (.ok a, d) → c.passed < d.passed

/-- What a parser is allowed to see of the token at which it stops: the whole token
if it fails, and if it succeeds not more than `same` tells apart. -/
def Alike (same : TokenKind → TokenKind → Prop) (result : Except SyntaxError α)
    (c d : Cursor) : Prop :=
  match result with
  | .ok _ => same c.kind d.kind
  | .error _ => c.current = d.current

/-- Where `x` passes fewer than `depth` tokens, `y` does the same wherever the same
tokens lie ahead. -/
def Follows (depth : Nat) (start : TokenKind → Prop) (same : TokenKind → TokenKind → Prop)
    (x y : Parser α) : Prop :=
  ∀ (c d c' d' : Cursor) (seg : List Token) (result : Except SyntaxError α),
    start c.kind → start d.kind → seg.length < depth → x c = (result, c') →
    c.Passes seg c' → d.Passes seg d' → Alike same result c' d' → y d = (result, d')

/-- The parser `x` passes tokens, and `y` follows it. -/
structure Leads (depth : Nat) (start : TokenKind → Prop) (same : TokenKind → TokenKind → Prop)
    (x y : Parser α) : Prop where
  moves : Moves start x
  follows : Follows depth start same x y

/-- Besides, `x` passes a token if it succeeds. -/
structure Takes (depth : Nat) (start : TokenKind → Prop) (same : TokenKind → TokenKind → Prop)
    (x y : Parser α) : Prop extends Leads depth start same x y where
  advances : Advances start x

/-- Every kind. -/
abbrev Anywhere (_ : TokenKind) : Prop := True

variable {start : TokenKind → Prop} {same same' : TokenKind → TokenKind → Prop}
variable {depth depth' : Nat} {x y : Parser α} {f g : α → Parser β}

theorem Moves.passes (moves : Moves start x) {c d : Cursor} {result : Except SyntaxError α}
    (here : start c.kind) (ran : x c = (result, d)) : ∃ seg, c.Passes seg d := by
  have reached := moves c here
  rwa [ran] at reached

theorem Leads.mono (leads : Leads depth start same x y) (fewer : depth' ≤ depth)
    (finer : ∀ k k', same' k k' → same k k') : Leads depth' start same' x y := by
  refine ⟨leads.moves, ?_⟩
  intro c d c' d' seg result atC atD short ran passes passes' alike
  refine leads.follows c d c' d' seg result atC atD (by omega) ran passes passes' ?_
  cases result with
  | ok a => exact finer _ _ alike
  | error e => exact alike

theorem Leads.shallower (leads : Leads (depth + 1) start same x y) : Leads depth start same x y :=
  leads.mono (Nat.le_succ depth) fun _ _ h => h

/-- To depth zero there is nothing to follow. -/
theorem Moves.leads (moves : Moves start x) (y : Parser α) : Leads 0 start same x y :=
  ⟨moves, fun _ _ _ _ _ _ _ _ short => absurd short (Nat.not_lt_zero _)⟩

/-- Passes the current token or refuses it, as `judge` decides. -/
def judged (judge : Token → Except SyntaxError α) : Parser α := fun c =>
  match judge c.current with
  | .ok a => (.ok a, c.advance)
  | .error e => (.error e, c)

theorem takes_judged {judge : Token → Except SyntaxError α}
    (refusesEnd : ∀ t a, start t.kind → judge t = .ok a → t.kind ≠ .eof) :
    Takes depth start same (judged judge) (judged judge) := by
  refine ⟨⟨fun c here => ?_, ?_⟩, ?_⟩
  · cases verdict : judge c.current with
    | ok a => exact ⟨_, by simpa only [judged, verdict] using .advance (refusesEnd _ a here verdict)⟩
    | error e => exact ⟨_, by simpa only [judged, verdict] using .refl c⟩
  · intro c d c' d' seg result atC _ _ ran passes passes' alike
    cases verdict : judge c.current with
    | ok a =>
        simp only [judged, verdict, Prod.mk.injEq] at ran
        obtain ⟨rfl, rfl⟩ := ran
        obtain rfl := passes.seg_unique (.advance (refusesEnd _ a atC verdict))
        have here := passes'.current_eq
        have notEnd : d.kind ≠ .eof := by
          rw [Cursor.kind, here]
          exact passes.unended _ (by simp)
        have step := Passes.advance notEnd
        rw [here] at step
        simp only [judged, here, verdict, step.unique passes']
    | error e =>
        simp only [judged, verdict, Prod.mk.injEq] at ran
        obtain ⟨rfl, rfl⟩ := ran
        obtain rfl := passes.seg_unique (.refl c)
        obtain rfl := passes'.eq_of_nil
        have here : c.current = d'.current := alike
        simp only [judged, ← here, verdict]
  · intro c a d _ ran
    cases verdict : judge c.current with
    | ok b =>
        simp only [judged, verdict, Prod.mk.injEq] at ran
        rw [← ran.2]
        exact Nat.lt_succ_self _
    | error e => simp [judged, verdict] at ran

theorem take_eq : take = judged .ok := rfl

theorem refuse_eq :
    (refuse : Parser α) = judged fun t => .error ⟨.unexpected t.text, t.span.start⟩ := rfl

theorem refuseFor_eq (message : String) : (refuseFor message : Parser α) =
    judged fun t => .error ⟨.unexpectedFor t.text message, t.span.start⟩ := rfl

theorem expect_eq (k : TokenKind) : expect k = judged fun t =>
    if t.kind = k then .ok t else .error ⟨.unexpected t.text, t.span.start⟩ := by
  funext c
  by_cases found : c.current.kind = k
  · simp only [expect, judged, Cursor.kind, found, if_true]
  · simp only [expect, judged, Cursor.kind, found, if_false]
    rfl

theorem expectFor_eq (k : TokenKind) (message : String) : expectFor k message = judged fun t =>
    if t.kind = k then .ok t else .error ⟨.unexpectedFor t.text message, t.span.start⟩ := by
  funext c
  by_cases found : c.current.kind = k
  · simp only [expectFor, judged, Cursor.kind, found, if_true]
  · simp only [expectFor, judged, Cursor.kind, found, if_false]
    rfl

theorem takes_take (notAtEnd : ¬ start .eof) : Takes depth start same take take := by
  rw [take_eq]
  exact takes_judged fun t _ here _ ended => notAtEnd (ended ▸ here)

theorem takes_refuse : Takes depth start same (refuse : Parser α) refuse := by
  rw [refuse_eq]
  exact takes_judged fun _ _ _ accepted => nomatch accepted

theorem takes_refuseFor (message : String) :
    Takes depth start same (refuseFor message : Parser α) (refuseFor message) := by
  rw [refuseFor_eq]
  exact takes_judged fun _ _ _ accepted => nomatch accepted

theorem moves_refuse : Moves start (refuse : Parser α) := fun c _ => ⟨[], .refl c⟩

theorem moves_refuseFor (message : String) : Moves start (refuseFor message : Parser α) :=
  fun c _ => ⟨[], .refl c⟩

/-- A judge that accepts tokens of one kind only, which is not the end of input. -/
private theorem refusesEnd_of_kind {k : TokenKind} (notEnd : k ≠ .eof) {e : Token → SyntaxError}
    (t u : Token) (_ : start t.kind)
    (accepted : (if t.kind = k then Except.ok t else .error (e t)) = .ok u) : t.kind ≠ .eof := by
  split at accepted
  · rename_i found
    exact found ▸ notEnd
  · cases accepted

theorem takes_expect {k : TokenKind} (notEnd : k ≠ .eof) :
    Takes depth start same (expect k) (expect k) := by
  rw [expect_eq]
  exact takes_judged (refusesEnd_of_kind notEnd)

theorem takes_expectFor {k : TokenKind} (notEnd : k ≠ .eof) (message : String) :
    Takes depth start same (expectFor k message) (expectFor k message) := by
  rw [expectFor_eq]
  exact takes_judged (refusesEnd_of_kind notEnd)

variable {k : TokenKind} {message : String} {c d : Cursor} {t : Token}

theorem take_eq_ok (passes : c.Passes [t] d) : take c = (.ok t, d) := by
  have here := passes.current_eq
  have notEnd : c.kind ≠ .eof := by
    rw [Cursor.kind, here]
    exact passes.unended t (by simp)
  have step := Passes.advance notEnd
  rw [here] at step
  rw [← step.unique passes, ← here]
  rfl

theorem passes_of_take (notEnd : c.kind ≠ .eof) (ran : take c = (.ok t, d)) :
    c.Passes [t] d ∧ t.kind = c.kind := by
  cases ran
  exact ⟨.advance notEnd, rfl⟩

theorem expect_eq_take (found : c.kind = k) : expect k c = take c := if_pos found

theorem expectFor_eq_take (found : c.kind = k) : expectFor k message c = take c := if_pos found

theorem expect_eq_ok (passes : c.Passes [t] d) (found : t.kind = k) : expect k c = (.ok t, d) := by
  rw [expect_eq_take (passes.kind_eq.trans found)]
  exact take_eq_ok passes

theorem expectFor_eq_ok (passes : c.Passes [t] d) (found : t.kind = k) :
    expectFor k message c = (.ok t, d) := by
  rw [expectFor_eq_take (passes.kind_eq.trans found)]
  exact take_eq_ok passes

theorem passes_of_expect (notEnd : k ≠ .eof) (ran : expect k c = (.ok t, d)) :
    c.Passes [t] d ∧ t.kind = k := by
  by_cases found : c.kind = k
  · rw [expect_eq_take found] at ran
    exact found ▸ passes_of_take (found ▸ notEnd) ran
  · simp [expect, found] at ran

theorem passes_of_expectFor (notEnd : k ≠ .eof) (ran : expectFor k message c = (.ok t, d)) :
    c.Passes [t] d ∧ t.kind = k := by
  by_cases found : c.kind = k
  · rw [expectFor_eq_take found] at ran
    exact found ▸ passes_of_take (found ▸ notEnd) ran
  · simp [expectFor, found] at ran

theorem kind_bind_apply (f : TokenKind → Parser α) (c : Cursor) : (kind >>= f) c = f c.kind c := rfl

theorem leads_pure (a : α) : Leads depth start same (pure a) (pure a) := by
  refine ⟨fun c _ => ⟨[], .refl c⟩, ?_⟩
  intro c d c' d' seg result _ _ _ ran passes passes' _
  cases ran
  obtain rfl := passes.seg_unique (.refl c)
  rw [passes'.eq_of_nil]
  rfl

theorem Moves.bind (first : Moves start x) (next : ∀ a, Moves Anywhere (f a)) :
    Moves start (x >>= f) := by
  intro c here
  obtain ⟨seg, passes⟩ := first c here
  rcases ran : x c with ⟨e | a, d⟩
  · rw [Attempt.bind_error ran]
    exact ⟨seg, by rwa [ran] at passes⟩
  · rw [Attempt.bind_ok ran]
    obtain ⟨seg', passes'⟩ := next a d trivial
    rw [ran] at passes
    exact ⟨seg ++ seg', passes.trans passes'⟩

/-- The rule for sequences. The second step may follow to a lesser depth, as long as
what the first step passes makes up for it. -/
theorem Leads.bindTo [Std.Refl same] (first : Leads depth start same x y)
    (next : ∀ a, Leads depth' Anywhere same (f a) (g a))
    (shorter : ∀ c a d seg rest, start c.kind → x c = (.ok a, d) → c.Passes seg d →
      seg.length + rest < depth → rest < depth') :
    Leads depth start same (x >>= f) (y >>= g) := by
  refine ⟨first.moves.bind fun a => (next a).moves, ?_⟩
  intro c d c' d' seg result atC atD short ran passes passes' alike
  rcases ran₁ : x c with ⟨e | a, m⟩
  · rw [Attempt.bind_error ran₁] at ran
    cases ran
    exact Attempt.bind_error (first.follows c d _ d' seg _ atC atD short ran₁ passes passes' alike) g
  · rw [Attempt.bind_ok ran₁] at ran
    obtain ⟨seg₁, passes₁⟩ := first.moves.passes atC ran₁
    obtain ⟨seg₂, passes₂⟩ := (next a).moves.passes trivial ran
    obtain rfl := passes.seg_unique (passes₁.trans passes₂)
    obtain ⟨m', passes₁', passes₂'⟩ := passes'.split
    rw [List.length_append] at short
    -- Between the two steps both cursors stand at the same token, or at their ends.
    have between : same m.kind m'.kind := by
      cases result with
      | ok b => exact passes₂.kind_congr Std.Refl.refl passes₂' alike
      | error e =>
          have here : m.current = m'.current := passes₂.current_congr passes₂' alike
          rw [Cursor.kind, Cursor.kind, here]
          exact Std.Refl.refl _
    have ran₁' := first.follows c d m m' seg₁ _ atC atD (by omega) ran₁ passes₁ passes₁' between
    rw [Attempt.bind_ok ran₁']
    exact (next a).follows m m' c' d' seg₂ result trivial trivial
      (shorter c a m seg₁ _ atC ran₁ passes₁ short) ran passes₂ passes₂' alike

theorem Leads.bind [Std.Refl same] (first : Leads depth start same x y)
    (next : ∀ a, Leads depth Anywhere same (f a) (g a)) :
    Leads depth start same (x >>= f) (y >>= g) :=
  first.bindTo next fun _ _ _ _ _ _ _ _ short => by omega

/-- After a step that passes a token the rest needs to follow one token less. -/
theorem Takes.bind [Std.Refl same] (first : Takes (depth + 1) start same x y)
    (next : ∀ a, Leads depth Anywhere same (f a) (g a)) :
    Takes (depth + 1) start same (x >>= f) (y >>= g) := by
  refine ⟨first.toLeads.bindTo next fun c a d seg rest here ran passes short => ?_, ?_⟩
  · have more := first.advances c a d here ran
    have passed := passes.passed
    omega
  · intro c b e here ran
    obtain ⟨a, d, ran₁, ran₂⟩ := Attempt.bind_eq_ok_iff.mp ran
    have before := first.advances c a d here ran₁
    obtain ⟨seg, passes⟩ := (next a).moves.passes trivial ran₂
    have after := passes.passed
    omega

/-- A choice by the next kind. Where it stops at once, kinds that count as the same
have to lead to the same answer. -/
theorem leads_kind {f g : TokenKind → Parser α}
    (each : ∀ k, start k → Leads depth (· = k) same (f k) (g k))
    (stops : ∀ c d a, c.kind ≠ d.kind → same c.kind d.kind → f c.kind c = (.ok a, c) →
      g d.kind d = (.ok a, d)) :
    Leads depth start same (kind >>= f) (kind >>= g) := by
  refine ⟨fun c here => (each _ here).moves c rfl, ?_⟩
  intro c d c' d' seg result atC atD short ran passes passes' alike
  change f c.kind c = (result, c') at ran
  change g d.kind d = (result, d')
  by_cases here : c.kind = d.kind
  · rw [← here]
    exact (each _ atC).follows c d c' d' seg result rfl here.symm short ran passes passes' alike
  · cases seg with
    | cons t seg => exact absurd (passes.kind_eq.trans passes'.kind_eq.symm) here
    | nil =>
        obtain rfl := passes.eq_of_nil
        obtain rfl := passes'.eq_of_nil
        cases result with
        | ok a => exact stops _ _ a here alike ran
        | error e => exact absurd (congrArg Token.kind alike) here

/-- A choice by the next kind that is shown that kind. -/
theorem leads_kind_eq {f g : TokenKind → Parser α}
    (each : ∀ k, start k → Leads depth (· = k) Eq (f k) (g k)) :
    Leads depth start Eq (kind >>= f) (kind >>= g) :=
  leads_kind each fun _ _ _ differ alike => absurd alike differ

/-- A choice by the next kind in which every successful branch passes a token. -/
theorem takes_kind {f g : TokenKind → Parser α}
    (each : ∀ k, Takes depth (· = k) same (f k) (g k)) :
    Takes depth start same (kind >>= f) (kind >>= g) := by
  refine ⟨leads_kind (fun k _ => (each k).toLeads) fun c d a _ _ ran => ?_, ?_⟩
  · exact absurd ((each c.kind).advances c a c rfl ran) (Nat.lt_irrefl _)
  · intro c a d _ ran
    exact (each c.kind).advances c a d rfl ran

end Parser
end Scriptlet
