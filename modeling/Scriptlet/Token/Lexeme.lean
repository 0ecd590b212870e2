import Scriptlet.Text.Blank
import Scriptlet.Text.Lines
import Scriptlet.Token

/-!
# Lexemes

A source is cut into lexemes from the left. A lexeme is a gap (a run of blanks,
or a comment up to the end of its line) or the text of a token, and it is as
long as its kind allows. `cutAll` stops at a character with which no lexeme
begins.
-/

namespace Scriptlet

/-- The kinds of lexemes. -/
inductive LexemeKind where
  | gap
  | token (kind : TokenKind)
  deriving DecidableEq, Repr

namespace Lexeme

/-- Words with a meaning of their own. -/
def reserved : List (String × TokenKind) :=
  [("declare", .declareWord), ("if", .ifWord), ("else", .elseWord), ("while", .whileWord),
    ("switch", .switchWord), ("case", .caseWord), ("default", .defaultWord),
    ("input", .inputWord), ("print", .printWord), ("num", .typeName), ("bool", .typeName),
    ("true", .boolean), ("false", .boolean)]

/-- The kind of a word. -/
def wordKind (word : String) : TokenKind := (reserved.lookup word).getD .identifier

/-- The kind of a token that is a single character. -/
def symbolKind? (c : Char) : Option TokenKind :=
  if c = '\x7b' then some .openCurly
  else if c = '\x7d' then some .closeCurly
  else if c = '(' then some .openParen
  else if c = ')' then some .closeParen
  else if c = '=' then some .assignment
  else if c = '!' then some .not
  else if c = '<' then some .less
  else if c = '>' then some .greater
  else if c = ';' then some .semicolon
  else if c = ':' then some .colon
  else if c = '+' then some .plus
  else if c = '-' then some .dash
  else if c = '/' then some .slash
  else if c = '*' then some .star
  else if c = '^' then some .caret
  else none

/-- The kind of a token that is two characters. -/
def pairKind? (c d : Char) : Option TokenKind :=
  if c = '=' ∧ d = '=' then some .equals
  else if c = '|' ∧ d = '|' then some .or
  else if c = '&' ∧ d = '&' then some .and
  else none

/-- Letters, digits and the underscore. -/
def isWordChar (c : Char) : Bool := c.isAlphanum || c == '_'

/-- Cuts before the first character that is not in a class. -/
def span (p : Char → Bool) (cs : List Char) : List Char × List Char :=
  (cs.takeWhile p, cs.dropWhile p)

/-- Cuts after a number: digits, and a point with digits after it. -/
def spanNumber (cs : List Char) : List Char × List Char :=
  let (whole, rest) := span Char.isDigit cs
  match rest with
  | '.' :: d :: more =>
    if d.isDigit then
      let (fraction, rest) := span Char.isDigit (d :: more)
      (whole ++ '.' :: fraction, rest)
    else (whole, rest)
  | _ => (whole, rest)

/-- Cuts after an operator or bracket, two characters long if it can be. -/
def operator? : List Char → Option (TokenKind × List Char × List Char)
  | [] => none
  | [c] => (symbolKind? c).map fun kind => (kind, [c], [])
  | c :: d :: rest =>
    match pairKind? c d with
    | some kind => some (kind, [c, d], rest)
    | none => (symbolKind? c).map fun kind => (kind, [c], d :: rest)

/-- The first lexeme of a text: its kind, its characters, and what follows. -/
def next? (cs : List Char) : Option (LexemeKind × List Char × List Char) :=
  match cs with
  | [] => none
  | c :: rest =>
    if Text.isBlank c then some (.gap, span Text.isBlank cs)
    else if c = '/' ∧ rest.head? = some '/' then some (.gap, span (· != '\n') cs)
    else if c.isAlpha then
      let (word, after) := span isWordChar cs
      some (.token (wordKind (String.ofList word)), word, after)
    else if c.isDigit then some (.token .number, spanNumber cs)
    else (operator? cs).map fun (kind, text, after) => (.token kind, text, after)

theorem span_append (p : Char → Bool) (cs : List Char) :
    (span p cs).1 ++ (span p cs).2 = cs := List.takeWhile_append_dropWhile

theorem spanNumber_append (cs : List Char) :
    (spanNumber cs).1 ++ (spanNumber cs).2 = cs := by
  unfold spanNumber
  have whole := span_append Char.isDigit cs
  generalize span Char.isDigit cs = cut at whole ⊢
  obtain ⟨digits, rest⟩ := cut
  dsimp only at whole ⊢
  split
  · next d more =>
    split
    · have fraction := span_append Char.isDigit (d :: more)
      rw [List.append_assoc, List.cons_append, fraction, whole]
    · exact whole
  · exact whole

theorem operator?_append {cs text rest : List Char} {kind : TokenKind}
    (h : operator? cs = some (kind, text, rest)) : text ++ rest = cs ∧ text ≠ [] := by
  unfold operator? at h
  split at h
  · simp at h
  · obtain ⟨_, _, same⟩ := Option.map_eq_some_iff.1 h
    cases same
    simp
  · split at h
    · cases h
      simp
    · obtain ⟨_, _, same⟩ := Option.map_eq_some_iff.1 h
      cases same
      simp

theorem span_ne_nil {p : Char → Bool} {c : Char} (h : p c = true) (cs : List Char) :
    (span p (c :: cs)).1 ≠ [] := by
  simp [span, h]

theorem spanNumber_ne_nil {c : Char} (h : c.isDigit = true) (cs : List Char) :
    (spanNumber (c :: cs)).1 ≠ [] := by
  unfold spanNumber
  have start := span_ne_nil h cs
  generalize span Char.isDigit (c :: cs) = cut at start ⊢
  obtain ⟨digits, rest⟩ := cut
  dsimp only at start ⊢
  split
  · split <;> simp_all
  · exact start

theorem isWordChar_of_isAlpha {c : Char} (h : c.isAlpha = true) : isWordChar c = true := by
  simp [isWordChar, Char.isAlphanum, h]

/-- A lexeme is not empty, and nothing between it and the rest is lost. -/
theorem next?_append {cs text rest : List Char} {kind : LexemeKind}
    (h : next? cs = some (kind, text, rest)) : text ++ rest = cs ∧ text ≠ [] := by
  unfold next? at h
  split at h
  · simp at h
  · next c tail =>
    split at h
    · next blank =>
      simp only [Option.some.injEq, Prod.ext_iff] at h
      obtain ⟨-, rfl, rfl⟩ := h
      exact ⟨span_append _ _, span_ne_nil blank _⟩
    split at h
    · next slashes =>
      simp only [Option.some.injEq, Prod.ext_iff] at h
      obtain ⟨-, rfl, rfl⟩ := h
      exact ⟨span_append _ _, span_ne_nil (by simp [slashes.1]) _⟩
    split at h
    · next letter =>
      simp only [Option.some.injEq, Prod.ext_iff] at h
      obtain ⟨-, rfl, rfl⟩ := h
      exact ⟨span_append _ _, span_ne_nil (isWordChar_of_isAlpha letter) _⟩
    split at h
    · next digit =>
      simp only [Option.some.injEq, Prod.ext_iff] at h
      obtain ⟨-, rfl, rfl⟩ := h
      exact ⟨spanNumber_append _, spanNumber_ne_nil digit _⟩
    · obtain ⟨found, isOperator, same⟩ := Option.map_eq_some_iff.1 h
      obtain ⟨kind, text', rest'⟩ := found
      simp only [Prod.mk.injEq] at same
      obtain ⟨-, rfl, rfl⟩ := same
      exact operator?_append isOperator

theorem next?_length {cs text rest : List Char} {kind : LexemeKind}
    (h : next? cs = some (kind, text, rest)) : rest.length < cs.length := by
  obtain ⟨whole, nonempty⟩ := next?_append h
  have := List.length_pos_iff.2 nonempty
  rw [← whole, List.length_append]
  omega

end Lexeme

/-- A lexeme at its place in a source. -/
structure Lexeme where
  kind : LexemeKind
  /-- The byte offset of the first character. -/
  start : Nat
  text : List Char
  deriving DecidableEq, Repr

namespace Lexeme

/-- The byte offset one past the last character. -/
def stop (l : Lexeme) : Nat := l.start + Text.byteLength l.text

/-- A text cut into lexemes as far as possible. -/
structure Cut where
  lexemes : List Lexeme
  /-- The byte offset at which the cutting stopped. -/
  stop : Nat
  /-- What is left: nothing, or a text with which no lexeme begins. -/
  rest : List Char
  deriving DecidableEq, Repr

/-- Cuts a text that starts at byte `offset` into lexemes, behind those in `done`,
the last of which comes first. -/
def cutFrom (done : List Lexeme) (offset : Nat) (cs : List Char) : Cut :=
  match _h : next? cs with
  | none => ⟨done.reverse, offset, cs⟩
  | some (kind, text, rest) =>
    cutFrom (⟨kind, offset, text⟩ :: done) (offset + Text.byteLength text) rest
termination_by cs.length
decreasing_by exact next?_length ‹_›

/-- Cuts a whole source into lexemes. -/
def cutAll (cs : List Char) : Cut := cutFrom [] 0 cs

/-- The token that a lexeme is, unless it is a gap. -/
def token? (file : String) (l : Lexeme) : Option Token :=
  match l.kind with
  | .gap => none
  | .token kind =>
    some ⟨kind, String.ofList l.text,
      ⟨⟨UInt32.ofNat l.start, file⟩, ⟨UInt32.ofNat l.stop, file⟩⟩⟩

end Lexeme
end Scriptlet
