/-!
# Tokens

A token is a kind, the text it was read from and the span of that text. Spans
hold byte offsets into the UTF-8 source, kept in 32 bits.
-/

namespace Scriptlet

/-- A byte offset into a named source. -/
structure Position where
  offset : UInt32
  file : String
  deriving DecidableEq, Repr

/-- The position that stands for no source at all. -/
def Position.null : Position := ⟨0, "<null>"⟩

/-- The bytes from `start` up to, and not with, `stop`. -/
structure Span where
  start : Position
  stop : Position
  deriving DecidableEq, Repr

/-- The kinds of tokens: the end of input, the kinds whose text matters, brackets
and operators, and reserved words. -/
inductive TokenKind where
  | eof
  | number
  | boolean
  | identifier
  | typeName
  | openCurly
  | closeCurly
  | openParen
  | closeParen
  | assignment
  | equals
  | not
  | less
  | greater
  | or
  | and
  | semicolon
  | colon
  | plus
  | dash
  | slash
  | star
  | caret
  | declareWord
  | ifWord
  | elseWord
  | whileWord
  | switchWord
  | caseWord
  | defaultWord
  | inputWord
  | printWord
  deriving DecidableEq, Repr

namespace TokenKind

/-- The name of a kind. -/
def name : TokenKind → String
  | .eof => "EOF"
  | .number => "Number"
  | .boolean => "Boolean"
  | .identifier => "Identifier"
  | .typeName => "TypeName"
  | .openCurly => "OpenCurly"
  | .closeCurly => "CloseCurly"
  | .openParen => "OpenParen"
  | .closeParen => "CloseParen"
  | .assignment => "Assignment"
  | .equals => "Equals"
  | .not => "Not"
  | .less => "Less"
  | .greater => "Greater"
  | .or => "Or"
  | .and => "And"
  | .semicolon => "Semicolon"
  | .colon => "Colon"
  | .plus => "Plus"
  | .dash => "Dash"
  | .slash => "Slash"
  | .star => "Star"
  | .caret => "Caret"
  | .declareWord => "Declare"
  | .ifWord => "If"
  | .elseWord => "Else"
  | .whileWord => "While"
  | .switchWord => "Switch"
  | .caseWord => "Case"
  | .defaultWord => "Default"
  | .inputWord => "Input"
  | .printWord => "Print"

/-- Every kind, in the order of its declaration. -/
def all : List TokenKind :=
  [.eof, .number, .boolean, .identifier, .typeName, .openCurly, .closeCurly, .openParen,
    .closeParen, .assignment, .equals, .not, .less, .greater, .or, .and, .semicolon, .colon,
    .plus, .dash, .slash, .star, .caret, .declareWord, .ifWord, .elseWord, .whileWord,
    .switchWord, .caseWord, .defaultWord, .inputWord, .printWord]

/-- The kind with a given name. -/
def ofName? (name : String) : Option TokenKind := all.find? (·.name == name)

/-- Whether tokens of a kind differ in more than their position. -/
def hasText : TokenKind → Bool
  | .number | .boolean | .identifier | .typeName => true
  | _ => false

end TokenKind

/-- A token. -/
structure Token where
  kind : TokenKind
  text : String
  span : Span
  deriving DecidableEq, Repr

namespace Token

/-- How a token is shown: its kind, and its text if that matters. -/
def render (t : Token) : String :=
  if t.kind.hasText then t.kind.name ++ " (" ++ t.text ++ ")" else t.kind.name

/-- The end of input at a position. -/
def eofAt (position : Position) : Token := ⟨.eof, "EOF", ⟨position, position⟩⟩

end Token
end Scriptlet
