import Scriptlet.Proofs.Grammar.Completion
import Scriptlet.Proofs.Grammar.Wording

/-!
# Where a syntax error points

A syntax error stands at the earliest wrong token. What comes before this token begins
some program, and no stream that goes on with this token is a program: whatever comes
behind it, the error is the same.
-/

namespace Scriptlet

/-- A stream with the end of input that closes it: its own, or one where its last token
stops. -/
def Token.closed (tokens : List Token) : List Token :=
  match tokens.getLast? with
  | none => [.eofAt .null]
  | some t => if t.kind = .eof then tokens else tokens ++ [.eofAt t.span.stop]

namespace Cursor

open Token (closed)

variable {c d : Cursor} {seg rest : List Token} {t : Token}

theorem ahead_ofTokens (tokens : List Token) :
    (ofTokens tokens).ahead ++ [(ofTokens tokens).final] = closed tokens := by
  unfold ofTokens closed
  cases last : tokens.getLast? with
  | none => rfl
  | some t =>
      obtain ⟨before, rfl⟩ := List.getLast?_eq_some_iff.mp last
      by_cases ended : t.kind = .eof <;> simp [ended]

theorem exists_stream_ofTokens (tokens : List Token) :
    ∃ last, (ofTokens tokens).ahead ++ [(ofTokens tokens).final] = tokens ++ last := by
  rcases ofTokens_cases tokens with whole | whole
  · exact ⟨[], by rw [whole, List.append_nil]⟩
  · exact ⟨[(ofTokens tokens).final], by rw [whole]⟩

/-- Behind the tokens that a cursor passes stands its current token. -/
theorem Passes.exists_stream_eq (passes : c.Passes seg d) :
    ∃ rest, c.ahead ++ [c.final] = seg ++ d.current :: rest := by
  rw [passes.ahead, ← passes.final, List.append_assoc]
  unfold current
  cases d.ahead with
  | nil => exact ⟨[], rfl⟩
  | cons t ahead => exact ⟨ahead ++ [d.final], rfl⟩

/-- A stream that begins with some tokens and one more is passed up to that one. -/
theorem exists_passes_of_stream (stream : c.ahead ++ [c.final] = seg ++ t :: rest)
    (unended : ∀ u ∈ seg, u.kind ≠ .eof) : ∃ d, c.Passes seg d ∧ d.current = t := by
  rcases List.eq_nil_or_concat rest with rfl | ⟨rest, last, rfl⟩
  · obtain ⟨ahead, final⟩ := List.append_inj' stream rfl
    rw [← List.append_nil seg] at ahead
    obtain ⟨d, passes, behind⟩ := Passes.exists_of_ahead ahead unended
    refine ⟨d, passes, ?_⟩
    rw [current, behind, passes.final]
    exact List.head_eq_of_cons_eq final
  · rw [List.concat_eq_append, ← List.cons_append, ← List.append_assoc] at stream
    obtain ⟨ahead, -⟩ := List.append_inj' stream rfl
    obtain ⟨d, passes, behind⟩ := Passes.exists_of_ahead ahead unended
    exact ⟨d, passes, by rw [current, behind, List.headD_cons]⟩

end Cursor

namespace Program

open Token (closed)

variable {tokens seg : List Token} {d : Cursor} {e : SyntaxError}

/-- What is viable begins a program. -/
theorem exists_ofTokens_of_viable (unended : ∀ t ∈ seg, t.kind ≠ .eof)
    (viable : Parser.Viable (Grammar.EndsAll false) (Grammar.full.stmts false #[]) seg) :
    ∃ more p, ofTokens (seg ++ more) = .ok p := by
  obtain ⟨more, body, unended', accepts⟩ := viable
  obtain ⟨d, passes, ended⟩ :=
    Grammar.passes_ofTokens (List.forall_mem_append.mpr ⟨unended, unended'⟩)
  have read := accepts _ d passes (.inl (Grammar.kind_of_ahead_nil ended))
  exact ⟨more, .block body, by rw [ofTokens_eq, read]; rfl⟩

/-- What fails at a token fails there also if other tokens follow. -/
theorem ofTokens_error_of_passes
    (failed : Grammar.full.stmts false #[] (.ofTokens tokens) = (.error e, d))
    (passes : (Cursor.ofTokens tokens).Passes seg d) (more : List Token) :
    ofTokens (seg ++ d.current :: more) = .error e := by
  obtain ⟨last, stream⟩ := Cursor.exists_stream_ofTokens (seg ++ d.current :: more)
  rw [List.append_assoc, List.cons_append] at stream
  obtain ⟨d', passes', here⟩ := Cursor.exists_passes_of_stream stream passes.unended
  have alike : Parser.Alike Eq (.error e : Except SyntaxError (List Stmt)) d d' := here.symm
  have leads := (Grammar.leads_full (seg.length + 1)).stmts false #[]
  rw [ofTokens_eq, leads.follows _ _ d d' seg _ trivial trivial (Nat.lt_succ_self _) failed passes
    passes' alike]
  rfl

/-- A syntax error is at a token up to the first end of input. What comes before this
token begins some program, and every stream that goes on with it fails with the same
error. -/
theorem ofTokens_error_earliest (failed : ofTokens tokens = .error e) :
    ∃ i t, (closed tokens)[i]? = some t ∧ (∀ u ∈ (closed tokens).take i, u.kind ≠ .eof) ∧
      e.position = t.span.start ∧
      (∃ more p, ofTokens ((closed tokens).take i ++ more) = .ok p) ∧
      ∀ more, ofTokens ((closed tokens).take (i + 1) ++ more) = .error e := by
  rw [ofTokens_eq] at failed
  rcases ran : Grammar.full.stmts false #[] (.ofTokens tokens) with ⟨e' | body, d⟩
  · rw [ran] at failed
    cases failed
    obtain ⟨seg, passes, viable⟩ := Grammar.viable_of_stmts ran
    obtain ⟨rest, stream⟩ := passes.exists_stream_eq
    rw [Cursor.ahead_ofTokens] at stream
    have before : (closed tokens).take seg.length = seg := by rw [stream, List.take_left]
    have upTo : (closed tokens).take (seg.length + 1) = seg ++ [d.current] := by
      rw [stream, List.take_length_add_append]
      rfl
    refine ⟨seg.length, d.current, ?_, ?_, Grammar.position_of_stmts ran, ?_, fun more => ?_⟩
    · rw [stream, List.getElem?_append_right (Nat.le_refl _), Nat.sub_self, List.getElem?_cons_zero]
    · rw [before]
      exact passes.unended
    · rw [before]
      exact exists_ofTokens_of_viable passes.unended viable
    · rw [upTo, List.append_assoc]
      exact ofTokens_error_of_passes ran passes more
  · rw [ran] at failed
    cases failed

/-- An assignment in a block that is not closed, with a `case` in the place of its
semicolon. -/
def strayCase : List Token :=
  let token (kind : TokenKind) (text : String) (offset : UInt32) : Token :=
    ⟨kind, text, ⟨⟨offset, "main"⟩, ⟨offset + 1, "main"⟩⟩⟩
  [token .openCurly "\x7b" 0, token .identifier "x" 1, token .assignment "=" 2,
    token .number "1" 3, token .caseWord "case" 4, token .semicolon ";" 8]

theorem strayCase_error_earliest :
    ofTokens strayCase = .error ⟨.unexpected "case", ⟨4, "main"⟩⟩ ∧
      ∃ i t, (closed strayCase)[i]? = some t ∧ t.span.start = ⟨4, "main"⟩ ∧
        (∃ more p, ofTokens ((closed strayCase).take i ++ more) = .ok p) ∧
        ∀ more, ofTokens ((closed strayCase).take (i + 1) ++ more) =
          .error ⟨.unexpected "case", ⟨4, "main"⟩⟩ := by
  have failed : ofTokens strayCase = .error ⟨.unexpected "case", ⟨4, "main"⟩⟩ := by rfl
  obtain ⟨i, t, atToken, -, position, begins, fails⟩ := ofTokens_error_earliest failed
  exact ⟨failed, i, t, atToken, position.symm, begins, fails⟩

end Program
end Scriptlet
