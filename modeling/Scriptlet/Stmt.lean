import Scriptlet.Cases
import Scriptlet.Expr

/-!
# Statements

Statements are trees; a program is a block. The text of a statement has one line
for each head and each simple statement, and shows nesting by two spaces a level.
-/

namespace Scriptlet

/-- A statement. -/
inductive Stmt where
  /-- Brings a new variable into the innermost frame. -/
  | declare (name : String) (value : Expr)
  /-- Gives a variable a new value. -/
  | assign (name : String) (value : Expr)
  | print (value : Expr)
  | block (body : List Stmt)
  /-- Runs one of two branches; the second may be missing. -/
  | branch (condition : Expr) (onTrue : Stmt) (onFalse : Option Stmt)
  | loop (condition : Expr) (body : Stmt)
  /-- Runs the case with the label that the focus has, or else the fallback. -/
  | switch (focus : Expr) (cases : Cases Stmt) (fallback : Option Stmt)

namespace Stmt

mutual

/-- Equality of trees whose numbers are compared as numbers. -/
def equal : Stmt → Stmt → Bool
  | .declare x e, .declare x' e' => x == x' && e.equal e'
  | .assign x e, .assign x' e' => x == x' && e.equal e'
  | .print e, .print e' => e.equal e'
  | .block body, .block body' => equalAll body body'
  | .branch c t f, .branch c' t' f' => c.equal c' && t.equal t' && equalOption f f'
  | .loop c b, .loop c' b' => c.equal c' && b.equal b'
  | .switch e ⟨cases⟩ d, .switch e' ⟨others⟩ d' =>
    e.equal e' && equalCases cases others && equalOption d d'
  | _, _ => false

/-- Equality of lists of statements. -/
def equalAll : List Stmt → List Stmt → Bool
  | [], [] => true
  | s :: rest, s' :: rest' => s.equal s' && equalAll rest rest'
  | _, _ => false

/-- Equality of statements that may be missing. -/
def equalOption : Option Stmt → Option Stmt → Bool
  | none, none => true
  | some s, some s' => s.equal s'
  | _, _ => false

/-- Equality of cases, label by label and in order. -/
def equalCases : List (Value × Stmt) → List (Value × Stmt) → Bool
  | [], [] => true
  | (v, s) :: rest, (v', s') :: rest' => v.equal v' && s.equal s' && equalCases rest rest'
  | _, _ => false

end

/-- The blanks at the start of a line. -/
def indent (level : Nat) : String := String.ofList (List.replicate (2 * level) ' ')

mutual

/-- The text of a statement whose first line is indented by `level`. -/
def renderAt (level : Nat) : Stmt → String
  | .declare name value => indent level ++ "declare " ++ name ++ " = " ++ value.render ++ ";"
  | .assign name value => indent level ++ name ++ " = " ++ value.render ++ ";"
  | .print value => indent level ++ "print " ++ value.render ++ ";"
  | .block body => indent level ++ "\x7b\n" ++ renderAll (level + 1) body ++ indent level ++ "\x7d"
  | .branch condition onTrue onFalse =>
    indent level ++ "if (" ++ condition.render ++ ")\n" ++ renderAt (level + 1) onTrue ++
      renderElse level onFalse
  | .loop condition body =>
    indent level ++ "while (" ++ condition.render ++ ")\n" ++ renderAt (level + 1) body
  | .switch focus ⟨cases⟩ fallback =>
    indent level ++ "switch (" ++ focus.render ++ ") \x7b\n" ++ renderCases level cases ++
      renderFallback level fallback ++ indent level ++ "\x7d"

/-- Statements on lines of their own. -/
def renderAll (level : Nat) : List Stmt → String
  | [] => ""
  | s :: rest => renderAt level s ++ "\n" ++ renderAll level rest

/-- The branch after `else`, if there is one. -/
def renderElse (level : Nat) : Option Stmt → String
  | none => ""
  | some s => "\n" ++ indent level ++ "else\n" ++ renderAt (level + 1) s

/-- Cases of a `switch` at `level`, one level deeper than it. -/
def renderCases (level : Nat) : List (Value × Stmt) → String
  | [] => ""
  | (label, body) :: rest =>
    indent level ++ "  case " ++ label.render ++ ":\n" ++ renderAt (level + 2) body ++ "\n" ++
      renderCases level rest

/-- The fallback of a `switch` at `level`, if there is one. -/
def renderFallback (level : Nat) : Option Stmt → String
  | none => ""
  | some s => indent level ++ "  default:\n" ++ renderAt (level + 2) s ++ "\n"

end

/-- The text of a statement. -/
def render (s : Stmt) : String := renderAt 0 s

end Stmt
end Scriptlet
