import Scriptlet.Exec
import Scriptlet.Grammar.Form
import Scriptlet.Token.Source
import Scriptlet.Typing

/-!
# Programs

From a source text to a run: tokens, a tree, a check and an execution. A program
is the block of its statements, so its variables live in a frame of their own.
-/

namespace Scriptlet.Program

/-- The program that a stream of tokens writes. -/
def ofTokens (tokens : List Token) : Except SyntaxError Stmt :=
  let c := Cursor.ofTokens tokens
  ((Grammar.forCursor c).stmts false #[] c).1.map Stmt.block

/-- The program that a source text writes. -/
def ofSource (file source : String) : Except SyntaxError Stmt := do
  ofTokens (← Token.ofSource file source)

/-- The program that a source text writes, if it passes the check. -/
def checked (file source : String) : Except Error Stmt := do
  let program ← (ofSource file source).mapError Error.syntactic
  program.typecheck.mapError Error.static
  return program

end Scriptlet.Program
