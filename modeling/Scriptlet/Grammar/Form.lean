import Scriptlet.Grammar.Cursor
import Scriptlet.Grammar.Power
import Scriptlet.Stmt

/-!
# The forms of the language

A `Grammar` says how the parts inside a form are read, and the forms are defined
over it: a grouping reads what the grammar reads between two parentheses.
`Grammar.extend` is the grammar whose parts are forms over the given one, so
that forms nest one level deeper. `Grammar.empty` has no forms.
-/

namespace Scriptlet

/-- How the parts inside a form are read. -/
structure Grammar where
  /-- An expression of operators that bind tighter than a power. -/
  expr : Power → Parser Expr
  /-- The operators, and their operands, after a left operand. -/
  operators : Power → Expr → Parser Expr
  stmt : Parser Stmt
  /-- Statements up to the end of input or, in a block, up to its end, behind
  those already read. -/
  stmts : (inBlock : Bool) → Array Stmt → Parser (List Stmt)
  /-- The clauses of a `switch` behind those already read. -/
  clauses : Cases Stmt → Option Stmt → Parser (Cases Stmt × Option Stmt)

namespace Grammar

open Scriptlet.Parser (kind take refuse refuseFor expect expectFor)

/-- The grammar without forms: no token starts an expression or a statement. -/
def empty : Grammar where
  expr _ := refuse
  operators _ _ := refuse
  stmt := refuseFor "expected the start of a statement"
  stmts _ _ := refuseFor "expected the start of a statement"
  clauses _ _ := refuse

/-- The number that the current token writes. -/
def numeral : Parser Float := fun c =>
  match Decimal.read? c.current.text.toList with
  | some x => (.ok x, c.advance)
  | none => (.error ⟨.badNumber c.current.text, c.position⟩, c)

/-- The truth value that the current token writes. -/
def truthValue : Parser Bool := do
  let token ← take
  return token.text == "true"

/-- A literal or a variable. -/
def primary : Parser Expr := do
  match ← kind with
  | .number => return .num (← numeral)
  | .boolean => return .bool (← truthValue)
  | .identifier => return .var (← take).text
  | _ => refuse

/-- The name of a type. -/
def typeName : Parser Ty := fun c =>
  if c.kind = .typeName ∨ c.kind = .identifier then
    match Ty.ofName? c.current.text with
    | some ty => (.ok ty, c.advance)
    | none => (.error ⟨.unknownType c.current.text, c.position⟩, c)
  else (.error (c.unexpectedFor "expected a type name"), c)

/-- A read of input: a word, and a type in angle brackets. -/
def inputRead : Parser Expr := do
  let _ ← take
  let _ ← expect .less
  let ty ← typeName
  let _ ← expect .greater
  return .input ty

variable (g : Grammar)

/-- An operator before its operand. -/
def unary : Parser Expr := do
  match (← kind).unaryOp? with
  | some op => do
    let _ ← take
    let operand ← g.expr .unary
    return .unary op operand
  | none => refuse

/-- An expression in parentheses. -/
def grouping : Parser Expr := do
  let _ ← take
  let e ← g.expr .lowest
  let _ ← expect .closeParen
  return e

/-- An operand: what stands between operators. -/
def operand : Parser Expr := do
  match ← kind with
  | .number | .boolean | .identifier => primary
  | .inputWord => inputRead
  | .dash | .not => g.unary
  | .openParen => g.grouping
  | _ => refuse

/-- An operator after its left operand. Its right operand takes in operators
that bind tighter than `power`. -/
def binary (left : Expr) (power : Power) : Parser Expr := do
  match (← kind).binaryOp? with
  | some op => do
    let _ ← take
    let right ← g.expr power
    return .binary op left right
  | none => refuse

/-- The power that bounds the right operand of an operator of a given power. It
is the power itself, so the operator groups to the left; only exponents bind
looser, so that they group to the right and take in an operator before them. -/
def rightPower : Power → Power
  | .exponent => .unary
  | power => power

/-- The operators after a left operand that bind tighter than `power`. -/
def operatorsForm (power : Power) (left : Expr) : Parser Expr := do
  match (← kind).power? with
  | some next =>
    if power.looserThan next then do
      let e ← g.binary left (rightPower next)
      g.operators power e
    else return left
  | none => return left

/-- An operand and the operators after it. -/
def exprForm (power : Power) : Parser Expr := do
  let left ← g.operand
  g.operators power left

/-- The condition or focus of a statement, in parentheses. -/
def parenthesized : Parser Expr := do
  let _ ← expect .openParen
  let e ← g.expr .lowest
  let _ ← expect .closeParen
  return e

/-- A declaration. -/
def declaration : Parser Stmt := do
  let _ ← take
  let name ← expectFor .identifier "expected identifier during variable declaration"
  let _ ← expect .assignment
  let value ← g.expr .lowest
  let _ ← expect .semicolon
  return .declare name.text value

/-- An assignment. -/
def assignment : Parser Stmt := do
  let name ← expectFor .identifier "expected identifier in assignment"
  let _ ← expectFor .assignment "expected `=` after variable name"
  let value ← g.expr .lowest
  let _ ← expect .semicolon
  return .assign name.text value

/-- A `print` statement. -/
def printing : Parser Stmt := do
  let _ ← take
  let value ← g.expr .lowest
  let _ ← expect .semicolon
  return .print value

/-- A block. -/
def block : Parser Stmt := do
  let _ ← take
  let body ← g.stmts true #[]
  let _ ← expect .closeCurly
  return .block body

/-- A conditional. An `else` belongs to the nearest conditional that can take it. -/
def conditional : Parser Stmt := do
  let _ ← take
  let condition ← g.parenthesized
  let onTrue ← g.stmt
  if (← kind) = .elseWord then do
    let _ ← take
    let onFalse ← g.stmt
    return .branch condition onTrue (some onFalse)
  else return .branch condition onTrue none

/-- A loop. -/
def looping : Parser Stmt := do
  let _ ← take
  let condition ← g.parenthesized
  let body ← g.stmt
  return .loop condition body

/-- The label of a case: a number that may have a minus sign, or a truth value. -/
def label : Parser Value := do
  let negative := (← kind) = .dash
  if negative then
    let _ ← take
  match ← kind with
  | .number => do
    let x ← numeral
    return .num (if negative then -x else x)
  | .boolean =>
    if negative then refuseFor "expected a number or boolean case label"
    else return .bool (← truthValue)
  | _ => refuseFor "expected a number or boolean case label"

/-- A `switch` statement. -/
def switching : Parser Stmt := do
  let _ ← take
  let focus ← g.parenthesized
  let _ ← expect .openCurly
  let (cases, fallback) ← g.clauses .empty none
  let _ ← expect .closeCurly
  return .switch focus cases fallback

/-- Clauses of a `switch`: cases, and one `default` after them. -/
def clausesForm (cases : Cases Stmt) (fallback : Option Stmt) :
    Parser (Cases Stmt × Option Stmt) := do
  match ← kind with
  | .caseWord =>
    if fallback.isSome then refuseFor "`case` must come before `default`"
    else do
      let _ ← take
      let value ← label
      let _ ← expect .colon
      let body ← g.stmt
      g.clauses (cases.insert value body) fallback
  | .defaultWord =>
    if fallback.isSome then refuseFor "a switch has at most one `default`"
    else do
      let _ ← take
      let _ ← expect .colon
      let body ← g.stmt
      g.clauses cases (some body)
  | .closeCurly => return (cases, fallback)
  | _ => refuseFor "expected `case`, `default` or `\x7d`"

/-- A statement, told by its first token. -/
def stmtForm : Parser Stmt := do
  match ← kind with
  | .declareWord => g.declaration
  | .identifier => g.assignment
  | .printWord => g.printing
  | .openCurly => g.block
  | .ifWord => g.conditional
  | .whileWord => g.looping
  | .switchWord => g.switching
  | _ => refuseFor "expected the start of a statement"

/-- Statements behind those in `done`. -/
def stmtsForm (inBlock : Bool) (done : Array Stmt) : Parser (List Stmt) := do
  let next ← kind
  if next = .eof ∨ (inBlock ∧ next = .closeCurly) then return done.toList
  else do
    let s ← g.stmtForm
    g.stmts inBlock (done.push s)

/-- The grammar in which forms nest one level deeper. -/
def extend : Grammar where
  expr := g.exprForm
  operators := g.operatorsForm
  stmt := g.stmtForm
  stmts := g.stmtsForm
  clauses := g.clausesForm

/-- The grammar in which forms nest at most `depth` levels deep. -/
def nested (depth : Nat) : Grammar := Nat.repeat extend depth empty

/-- A grammar deep enough for every text at a cursor: each level passes at least
one token. -/
def forCursor (c : Cursor) : Grammar := nested (c.ahead.length + 1)

end Grammar
end Scriptlet
