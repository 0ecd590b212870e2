import Scriptlet.Attempt
import Scriptlet.Error

/-!
# A place in a stream of tokens

A cursor knows the tokens from its place on and how many it has passed. The
stream is closed by an end of input, which stays current however often it is
passed, so a parser needs no bounds check.
-/

namespace Scriptlet

/-- A place in a stream of tokens. -/
structure Cursor where
  /-- The number of tokens passed. -/
  passed : Nat
  /-- The tokens from here on, without the final one. -/
  ahead : List Token
  /-- The token that closes the stream. -/
  final : Token
  final_kind : final.kind = .eof

namespace Cursor

/-- The start of a stream. A stream that is not closed by an end of input gets
one where its last token stops. -/
def ofTokens (tokens : List Token) : Cursor :=
  match tokens.getLast? with
  | none => ⟨0, [], .eofAt .null, rfl⟩
  | some t =>
    if h : t.kind = .eof then ⟨0, tokens.dropLast, t, h⟩
    else ⟨0, tokens, .eofAt t.span.stop, rfl⟩

/-- The token at the cursor. -/
def current (c : Cursor) : Token := c.ahead.headD c.final

/-- The kind of the token at the cursor. -/
def kind (c : Cursor) : TokenKind := c.current.kind

/-- Where the token at the cursor starts. -/
def position (c : Cursor) : Position := c.current.span.start

/-- The cursor after its current token. -/
def advance (c : Cursor) : Cursor := { c with passed := c.passed + 1, ahead := c.ahead.tail }

/-- The current token is out of place. -/
def unexpected (c : Cursor) : SyntaxError := ⟨.unexpected c.current.text, c.position⟩

/-- The current token is out of place, and `message` says what was expected. -/
def unexpectedFor (c : Cursor) (message : String) : SyntaxError :=
  ⟨.unexpectedFor c.current.text message, c.position⟩

theorem ahead_ne_nil {c : Cursor} (h : c.kind ≠ .eof) : c.ahead ≠ [] := by
  intro empty
  apply h
  simp [kind, current, empty, c.final_kind]

theorem length_ahead_advance {c : Cursor} (h : c.kind ≠ .eof) :
    c.advance.ahead.length < c.ahead.length := by
  have := List.length_pos_iff.2 (ahead_ne_nil h)
  simp only [advance, List.length_tail]
  omega

end Cursor

/-- A parser reads tokens at a cursor. Where it fails it stays at the token that
it could not take. -/
abbrev Parser (α : Type) : Type := Attempt SyntaxError Cursor α

namespace Parser

variable {α : Type}

/-- The kind of the current token. -/
def kind : Parser TokenKind := .view Cursor.kind

/-- Passes the current token, whatever it is. -/
def take : Parser Token := fun c => (.ok c.current, c.advance)

/-- Fails at the current token. -/
def refuse : Parser α := fun c => (.error c.unexpected, c)

/-- Fails at the current token and says what was expected. -/
def refuseFor (message : String) : Parser α := fun c => (.error (c.unexpectedFor message), c)

/-- Passes a token of the given kind. -/
def expect (kind : TokenKind) : Parser Token := fun c =>
  if c.kind = kind then (.ok c.current, c.advance) else (.error c.unexpected, c)

/-- Passes a token of the given kind, or says what was expected. -/
def expectFor (kind : TokenKind) (message : String) : Parser Token := fun c =>
  if c.kind = kind then (.ok c.current, c.advance) else (.error (c.unexpectedFor message), c)

end Parser
end Scriptlet
