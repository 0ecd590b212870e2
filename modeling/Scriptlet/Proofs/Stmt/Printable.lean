import Scriptlet.Proofs.Grammar.Statements
import Scriptlet.Proofs.Stmt.Parts
import Scriptlet.Proofs.Token.Spelling

/-!
# Printable trees

What a statement shows by itself: its names, its expressions and its labels. A tree
is printable if in each of its statements the names are names of the language, the
literals can be written without a sign, the labels are finite, and no `else` would
go to another conditional when the text is read.
-/

namespace Scriptlet

/-- The numbers in an expression, from left to right. -/
def Expr.literals : Expr → List Float
  | .bool _ | .var _ | .input _ => []
  | .num x => [x]
  | .unary _ operand => operand.literals
  | .binary _ left right => left.literals ++ right.literals

namespace Stmt

/-- The expressions directly in a statement. -/
def exprs : Stmt → List Expr
  | .declare _ e | .assign _ e | .print e | .branch e _ _ | .loop e _ | .switch e _ _ => [e]
  | .block _ => []

/-- The variables that a statement names outside of its parts. -/
def ownNames : Stmt → List String
  | .declare name e | .assign name e => name :: e.names
  | .print e | .branch e _ _ | .loop e _ | .switch e _ _ => e.names
  | .block _ => []

/-- The labels of a `switch`, in order. -/
def labels : Stmt → List Value
  | .switch _ cases _ => cases.keys
  | _ => []

/-- A property that a statement has with all that it contains. -/
def Everywhere (holds : Stmt → Prop) (s : Stmt) : Prop := ∀ t, s.Contains t → holds t

variable {holds : Stmt → Prop} {s t : Stmt}

theorem everywhere_iff :
    s.Everywhere holds ↔ holds s ∧ ∀ t, s.Part t → t.Everywhere holds := by
  constructor
  · intro all
    exact ⟨all s .refl, fun t part u inside => all u (.head part inside)⟩
  · rintro ⟨here, parts⟩ t inside
    rcases Relation.ReflTransGen.cases_head inside with rfl | ⟨u, part, inside⟩
    · exact here
    · exact parts u part t inside

theorem Everywhere.part (all : s.Everywhere holds) (part : s.Part t) : t.Everywhere holds :=
  (everywhere_iff.mp all).2 t part

theorem Everywhere.here (all : s.Everywhere holds) : holds s := all s .refl

theorem Everywhere.mono {holds' : Stmt → Prop} (all : s.Everywhere holds)
    (weaker : ∀ t, holds t → holds' t) : s.Everywhere holds' :=
  fun t inside => weaker t (all t inside)

theorem everywhere_block {body : List Stmt} :
    (block body).Everywhere holds ↔ holds (.block body) ∧ ∀ s ∈ body, s.Everywhere holds := by
  rw [everywhere_iff]
  refine and_congr_right fun _ => ⟨fun parts s member => parts s (.block member), ?_⟩
  rintro each s ⟨member⟩
  exact each s member

theorem everywhere_print {e : Expr} : (print e).Everywhere holds ↔ holds (.print e) := by
  rw [everywhere_iff]
  exact and_iff_left nofun

theorem everywhere_switch {focus : Expr} {cases : Cases Stmt} :
    (switch focus cases none).Everywhere holds ↔
      holds (.switch focus cases none) ∧ ∀ entry ∈ cases.entries, entry.2.Everywhere holds := by
  rw [everywhere_iff]
  refine and_congr_right fun _ => ⟨fun parts entry member => parts _ (.case member), ?_⟩
  intro each s part
  cases part with
  | case member => exact each _ member

/-- All names are names of the language. -/
def WellNamed (s : Stmt) : Prop := ∀ name ∈ s.ownNames, Lexeme.isName name = true

instance : DecidablePred WellNamed := fun s =>
  inferInstanceAs (Decidable (∀ name ∈ s.ownNames, Lexeme.isName name = true))

/-- Literals are written without a sign, and labels with or without one. Neither is
written if it is not finite. -/
structure Written (s : Stmt) : Prop where
  literals : ∀ e ∈ s.exprs, ∀ x ∈ e.literals, x.isFinite = true ∧ ¬ x < 0
  labels : ∀ x, .num x ∈ s.labels → x.isFinite = true

/-- An `else` does not go to a conditional inside the branch before it. -/
def Unambiguous (s : Stmt) : Prop :=
  ∀ condition onTrue onFalse, s = .branch condition onTrue (some onFalse) →
    onTrue.endsOpen = false

/-- The cases come from inserting one by one. -/
def Keyed (s : Stmt) : Prop :=
  ∀ focus cases fallback, s = .switch focus cases fallback → ∃ entries, cases = .ofList entries

/-- What a statement needs, its names apart, to be read back. -/
structure Readable (s : Stmt) : Prop where
  written : s.Written
  unambiguous : s.Unambiguous
  keyed : s.Keyed

/-- All that a tree needs so that its text can be read back. -/
def Printable (t : Stmt) : Prop :=
  t.Everywhere WellNamed ∧ t.Everywhere Written ∧ t.Everywhere Unambiguous

end Stmt
end Scriptlet
