import Scriptlet.Text.Quoted
import Scriptlet.Token
import Scriptlet.Value

/-!
# Causes of failure

What can be wrong with a text, with a program and with a run, as causes. The
wording is kept apart from the causes: every error has a name, a message, and a
tip for the report.
-/

namespace Scriptlet

/-- What is wrong at a place of a source. -/
inductive SyntaxCause where
  /-- No token starts with this character. -/
  | unrecognised (text : String)
  /-- A token that no program can have here. -/
  | unexpected (token : String)
  /-- A token that no program can have here, and what was expected. -/
  | unexpectedFor (token message : String)
  /-- A number token that does not write a number. -/
  | badNumber (token : String)
  | unknownType (name : String)
  deriving DecidableEq, Repr

namespace SyntaxCause

def name : SyntaxCause → String
  | .unrecognised _ => "UnrecognisedToken"
  | .unexpected _ => "UnexpectedToken"
  | .unexpectedFor _ _ => "UnexpectedTokenDetailed"
  | .badNumber _ => "NumberParseError"
  | .unknownType _ => "UnknownType"

def message : SyntaxCause → String
  | .unrecognised text => "unrecognised token: " ++ Text.quote text
  | .unexpected token => "unexpected token: " ++ Text.quote token
  | .unexpectedFor token message =>
    "unexpected token (" ++ Text.quote message ++ "): " ++ Text.quote token
  | .badNumber token => "error parsing number: " ++ Text.quote token
  | .unknownType name => "unknown type " ++ name ++ " found"

/-- Advice for the reader of a report. A character that starts no token needs
none. -/
def tip? : SyntaxCause → Option String
  | .unrecognised _ => none
  | .unexpected token => some ("Unexpected token: `" ++ token ++ "`, did you miss a semicolon?")
  | .unexpectedFor token message => some ("Unexpected token: `" ++ token ++ "`, " ++ message)
  | .badNumber token => some ("Invalid number: `" ++ token ++ "`")
  | .unknownType name =>
    some ("Unknown type `" ++ name ++ "` found, expected `num` or `bool`")

end SyntaxCause

/-- A text that is not a program, and where it stops being one. -/
structure SyntaxError where
  cause : SyntaxCause
  position : Position
  deriving DecidableEq, Repr

def SyntaxError.message (e : SyntaxError) : String :=
  e.cause.message ++ " at " ++ Nat.repr e.position.offset.toNat

/-- A wrong use of names or frames. -/
inductive ScopeError where
  /-- The name is already bound in the innermost frame. -/
  | duplicate (name : String)
  /-- An assignment to a name that is bound nowhere. -/
  | undeclared (name : String)
  /-- A use of a name that is bound nowhere. -/
  | undefined (name : String)
  /-- Only the global frame is left, and that one stays. -/
  | noFrame
  deriving DecidableEq, Repr

def ScopeError.message : ScopeError → String
  | .duplicate name => "duplicate variable definition: " ++ name
  | .undeclared name => "assignment to undeclared variable name: " ++ name
  | .undefined name => "name is not in scope: " ++ name
  | .noFrame => "pop_frame without a matching push_frame"

/-- Why a program is rejected before it runs. -/
inductive StaticError where
  | scope (cause : ScopeError)
  | mismatch (expected actual : Ty)
  deriving DecidableEq, Repr

namespace StaticError

def name : StaticError → String
  | .scope _ => "ScopeError"
  | .mismatch _ _ => "StaticTypeError"

def message : StaticError → String
  | .scope cause => cause.message
  | .mismatch expected actual =>
    "expected type " ++ expected.name ++ ", got type " ++ actual.name

end StaticError

/-- A value of the wrong type for an operator. -/
inductive TypeFault where
  | expected (ty : Ty) (value : Value)
  | differ (left right : Value)
  deriving DecidableEq

def TypeFault.message : TypeFault → String
  | .expected ty value => "expected " ++ ty.name ++ ", got " ++ value.render
  | .differ left right => "expected same types, got " ++ left.render ++ " and " ++ right.render

/-- Why a read of input gave no value. -/
inductive InputError where
  /-- The input has ended. -/
  | closed (expected : Ty)
  /-- The input or the prompt could not be used. -/
  | broken (message : String)
  /-- The next value has another type. -/
  | mismatch (expected : Ty) (value : Value)
  deriving DecidableEq

def InputError.message : InputError → String
  | .closed expected => "input closed while waiting for a value of type " ++ expected.name
  | .broken message => "failed to read input: " ++ message
  | .mismatch expected value =>
    "expected input of type " ++ expected.name ++ ", got " ++ value.render

/-- Why a run was broken off. -/
inductive RuntimeError where
  | scope (cause : ScopeError)
  | type (cause : TypeFault)
  | input (cause : InputError)
  deriving DecidableEq

namespace RuntimeError

def name : RuntimeError → String
  | .scope _ => "ScopeError"
  | .type _ => "DynamicTypeError"
  | .input _ => "InputError"

def message : RuntimeError → String
  | .scope cause => cause.message
  | .type cause => cause.message
  | .input cause => cause.message

end RuntimeError

/-- Any failure between a source text and the end of its run. -/
inductive Error where
  | syntactic (e : SyntaxError)
  | static (e : StaticError)
  | runtime (e : RuntimeError)
  deriving DecidableEq

namespace Error

def name : Error → String
  | .syntactic e => e.cause.name
  | .static e => e.name
  | .runtime e => e.name

def message : Error → String
  | .syntactic e => e.message
  | .static e => e.message
  | .runtime e => e.message

/-- Advice for the reader of a report. Errors without a position repeat their
message. -/
def tip? : Error → Option String
  | .syntactic e => e.cause.tip?
  | .static e => some e.message
  | .runtime e => some e.message

/-- Where the error is, known of wrong texts only. -/
def position? : Error → Option Position
  | .syntactic e => some e.position
  | .static _ => none
  | .runtime _ => none

end Error
end Scriptlet
