import Scriptlet.Proofs.Stmt.Printable

/-!
# The words of a printed tree

`Stmt.words` lists the words of a tree without blanks or places. If all names are
names, the text of the tree spells these words, whatever its numbers are: a number
without digits is spelled as an identifier.
-/

namespace Scriptlet

open Lexeme (Spells Parted)

/-- The word of a sign. -/
def signWords (negative : Bool) : List Word := if negative then [(.dash, "-")] else []

/-- The words of a number. -/
def numberWords (x : Float) : List Word :=
  if x.isInf then signWords (Binary64.isNegative x) ++ [(.identifier, "Infinity")]
  else if x == 0 then [(.number, "0")]
  else if x.isNaN then [(.identifier, "NaN")]
  else signWords (Binary64.isNegative x) ++
    [(.number, String.ofList (Decimal.writeMagnitude (Binary64.rank x)))]

/-- The words of a value. -/
def Value.words : Value → List Word
  | .num x => numberWords x
  | .bool b => [(.boolean, renderBool b)]

/-- The word of an operator between two operands. -/
def BinaryOp.word (op : BinaryOp) : Word :=
  (match op with
    | .add => .plus
    | .sub => .dash
    | .mul => .star
    | .div => .slash
    | .pow => .caret
    | .and => .and
    | .or => .or
    | .less => .less
    | .equal => .equals, op.symbol)

/-- The word of an operator before its operand. -/
def UnaryOp.word (op : UnaryOp) : Word :=
  (match op with
    | .negate => .dash
    | .not => .not, op.symbol)

/-- The words of an expression. -/
def Expr.words : Expr → List Word
  | .num x => numberWords x
  | .bool b => [(.boolean, Value.renderBool b)]
  | .var name => [(.identifier, name)]
  | .input ty => [(.inputWord, "input"), (.less, "<"), (.typeName, ty.name), (.greater, ">")]
  | .binary op left right =>
    (.openParen, "(") :: (left.words ++ op.word :: (right.words ++ [(.closeParen, ")")]))
  | .unary op operand => (.openParen, "(") :: op.word :: (operand.words ++ [(.closeParen, ")")])

namespace Stmt

/-- The words of a condition or focus behind its statement's first word. -/
def headWords (word : Word) (e : Expr) : List Word :=
  word :: (.openParen, "(") :: (e.words ++ [(.closeParen, ")")])

mutual

/-- The words of a statement. -/
def words : Stmt → List Word
  | .declare name value =>
    (.declareWord, "declare") :: (.identifier, name) :: (.assignment, "=") ::
      (value.words ++ [(.semicolon, ";")])
  | .assign name value =>
    (.identifier, name) :: (.assignment, "=") :: (value.words ++ [(.semicolon, ";")])
  | .print value => (.printWord, "print") :: (value.words ++ [(.semicolon, ";")])
  | .block body => (.openCurly, "\x7b") :: (wordsAll body ++ [(.closeCurly, "\x7d")])
  | .branch condition onTrue onFalse =>
    headWords (.ifWord, "if") condition ++ (onTrue.words ++ wordsElse onFalse)
  | .loop condition body => headWords (.whileWord, "while") condition ++ body.words
  | .switch focus ⟨cases⟩ fallback =>
    headWords (.switchWord, "switch") focus ++ (.openCurly, "\x7b") ::
      (wordsCases cases ++ (wordsFallback fallback ++ [(.closeCurly, "\x7d")]))

/-- The words of statements one after the other. -/
def wordsAll : List Stmt → List Word
  | [] => []
  | s :: rest => s.words ++ wordsAll rest

/-- The words of the branch after `else`, if there is one. -/
def wordsElse : Option Stmt → List Word
  | none => []
  | some s => (.elseWord, "else") :: s.words

/-- The words of cases one after the other. -/
def wordsCases : List (Value × Stmt) → List Word
  | [] => []
  | (label, body) :: rest =>
    (.caseWord, "case") :: (label.words ++ (.colon, ":") :: (body.words ++ wordsCases rest))

/-- The words of the fallback, if there is one. -/
def wordsFallback : Option Stmt → List Word
  | none => []
  | some s => (.defaultWord, "default") :: (.colon, ":") :: s.words

end

end Stmt

namespace Lexeme

variable {c : Char} {cs rest : List Char} {k : TokenKind} {ws : List Word}

theorem parted_cons (outside : (isWordChar c || c == '.') = false) : Parted (c :: cs) := by
  rintro d ⟨⟩
  simpa using outside

namespace Spells

theorem blanks (n : Nat) (spells : Spells cs ws) : Spells (List.replicate n ' ' ++ cs) ws := by
  induction n with
  | zero => exact spells
  | succ n ih => exact ih.blank rfl

/-- A symbol that starts no pair and no comment. -/
theorem bracket (symbol : symbolKind? c = some k) (alone : c ∉ ['=', '|', '&', '/'])
    (spells : Spells cs ws) : Spells (c :: cs) ((k, String.ofList [c]) :: ws) := by
  simp only [List.mem_cons, List.not_mem_nil, or_false, not_or] at alone
  exact .symbol symbol (fun d _ => by simp [pairKind?, alone]) spells

/-- A symbol before a blank. -/
theorem spaced (symbol : symbolKind? c = some k) (spells : Spells cs ws) :
    Spells (c :: ' ' :: cs) ((k, String.ofList [c]) :: ws) :=
  .symbol symbol (by simp [pairKind?]) (.blank rfl spells)

theorem keyword (word : String) (entry : reserved.lookup word = some k)
    (parted : Parted rest) (spells : Spells rest ws) :
    Spells (word.toList ++ rest) ((k, word) :: ws) := by
  have each : ∀ entry ∈ reserved, entry.1.toList.head?.any Char.isAlpha = true ∧
      entry.1.toList.all isWordChar = true := by decide
  obtain ⟨before, behind, split, -⟩ := List.lookup_eq_some_iff.mp entry
  obtain ⟨start, inside⟩ := each (word, k) (split ▸ List.mem_append_right before List.mem_cons_self)
  have spelled := spells.letters start (List.all_eq_true.mp inside) parted
  rwa [String.ofList_toList, wordKind, entry, Option.getD_some] at spelled

theorem name {name : String} (named : isName name = true) (parted : Parted rest)
    (spells : Spells rest ws) : Spells (name.toList ++ rest) ((.identifier, name) :: ws) := by
  have spelled : name.toList.head?.any Char.isAlpha = true ∧
      (∀ c ∈ name.toList, isWordChar c = true) ∧ reserved.lookup name = none := by
    unfold isName at named
    split at named
    · cases named
    · rename_i c letters split
      simp only [Bool.and_eq_true, List.all_eq_true, Option.isNone_iff_eq_none] at named
      obtain ⟨⟨letter, inside⟩, free⟩ := named
      rw [split]
      refine ⟨by simpa using letter, ?_, free⟩
      exact List.forall_mem_cons.mpr ⟨isWordChar_of_isAlpha letter, inside⟩
  obtain ⟨start, inside, free⟩ := spelled
  have spelled := spells.letters start inside parted
  rwa [String.ofList_toList, wordKind, free, Option.getD_none] at spelled

end Spells

end Lexeme

open Lexeme (parted_cons)

section

variable {rest : List Char} {ws : List Word}

/-- A sign before the word of a number. -/
private theorem spells_sign {cs : List Char} (negative : Bool) (spells : Spells cs ws) :
    Spells ((if negative then ['-'] else []) ++ cs) (signWords negative ++ ws) := by
  cases negative with
  | false => exact spells
  | true => exact .bracket rfl (by decide) spells

theorem spells_number (x : Float) (parted : Parted rest) (spells : Spells rest ws) :
    Spells ((Value.renderNumber x).toList ++ rest) (numberWords x ++ ws) := by
  unfold Value.renderNumber numberWords
  split
  · have word : Spells ("Infinity".toList ++ rest) ((.identifier, "Infinity") :: ws) :=
      .name (by decide) parted spells
    have signed := spells_sign (Binary64.isNegative x) word
    cases negative : Binary64.isNegative x with
    | false => simpa [negative, signWords] using signed
    | true => simpa [negative, signWords] using signed
  split
  · exact .numeral (.whole nofun (List.all_eq_true.mp (by decide))) parted spells
  split
  · exact .name (by decide) parted spells
  · rw [String.toList_ofList, Decimal.write, List.append_assoc, List.append_assoc]
    exact spells_sign _ (.numeral (Decimal.numeral_plain _) parted spells)

theorem spells_bool (b : Bool) (parted : Parted rest) (spells : Spells rest ws) :
    Spells ((Value.renderBool b).toList ++ rest) ((.boolean, Value.renderBool b) :: ws) := by
  cases b with
  | false => exact .keyword "false" (by decide) parted spells
  | true => exact .keyword "true" (by decide) parted spells

theorem Value.spells (v : Value) (parted : Parted rest) (spells : Spells rest ws) :
    Spells (v.render.toList ++ rest) (v.words ++ ws) := by
  cases v with
  | num x => exact spells_number x parted spells
  | bool b => exact spells_bool b parted spells

theorem BinaryOp.spells (op : BinaryOp) (spells : Spells rest ws) :
    Spells (op.symbol.toList ++ ' ' :: rest) (op.word :: ws) := by
  cases op with
  | add | sub | mul | div | pow | less => exact .spaced rfl spells
  | and | or | equal => exact .pair rfl (.blank rfl spells)

theorem UnaryOp.spells (op : UnaryOp) (spells : Spells rest ws) :
    Spells (op.symbol.toList ++ ' ' :: rest) (op.word :: ws) := by
  cases op with
  | negate | not => exact .spaced rfl spells

/-- The text of an expression spells its words. -/
theorem Expr.spells {e : Expr} (named : ∀ name ∈ e.names, Lexeme.isName name = true)
    (parted : Parted rest) (spells : Spells rest ws) :
    Spells (e.render.toList ++ rest) (e.words ++ ws) := by
  induction e generalizing rest ws with
  | num x => exact spells_number x parted spells
  | bool b => exact spells_bool b parted spells
  | var name => exact .name (named name (by simp [Expr.names])) parted spells
  | input ty =>
      have entry : Lexeme.reserved.lookup ty.name = some .typeName := by cases ty <;> decide
      simp only [Expr.render, Expr.words, String.toList_append, String.reduceToList,
        List.cons_append, List.nil_append, List.append_assoc]
      refine .keyword "input" (by decide) (parted_cons rfl) ?_
      refine .bracket rfl (by decide) (.keyword _ entry (parted_cons rfl) ?_)
      exact .bracket rfl (by decide) spells
  | binary op left right atLeft atRight =>
      simp only [Expr.names, List.forall_mem_append] at named
      simp only [Expr.render, Expr.words, String.toList_append, String.reduceToList,
        List.cons_append, List.nil_append, List.append_assoc]
      refine .bracket rfl (by decide) (atLeft named.1 (parted_cons rfl) ?_)
      refine .blank rfl (op.spells (atRight named.2 (parted_cons rfl) ?_))
      exact .bracket rfl (by decide) spells
  | unary op operand ih =>
      simp only [Expr.render, Expr.words, String.toList_append, String.reduceToList,
        List.cons_append, List.nil_append, List.append_assoc]
      refine .bracket rfl (by decide) (op.spells (ih named (parted_cons rfl) ?_))
      exact .bracket rfl (by decide) spells

end

namespace Stmt

variable {rest : List Char} {ws : List Word}

theorem spells_indent (level : Nat) {cs : List Char} (spells : Spells cs ws) :
    Spells ((indent level).toList ++ cs) ws := by
  rw [indent, String.toList_ofList]
  exact spells.blanks _

/-- A value and the semicolon behind it. -/
private theorem spells_value {e : Expr} (named : ∀ name ∈ e.names, Lexeme.isName name = true)
    (spells : Spells rest ws) :
    Spells (e.render.toList ++ ';' :: rest) (e.words ++ (.semicolon, ";") :: ws) :=
  Expr.spells named (parted_cons rfl) (.bracket rfl (by decide) spells)

/-- A condition or focus in parentheses, behind its word. -/
private theorem spells_head (word : String) {k : TokenKind} {e : Expr}
    (entry : Lexeme.reserved.lookup word = some k)
    (named : ∀ name ∈ e.names, Lexeme.isName name = true) (spells : Spells rest ws) :
    Spells (word.toList ++ ' ' :: '(' :: (e.render.toList ++ ')' :: rest))
      (headWords (k, word) e ++ ws) := by
  simp only [headWords, List.cons_append, List.append_assoc, List.nil_append]
  refine .keyword word entry (parted_cons rfl) (.blank rfl ?_)
  refine .bracket rfl (by decide) (Expr.spells named (parted_cons rfl) ?_)
  exact .bracket rfl (by decide) spells

/-- The text of a statement spells its words, at whatever level it is indented. -/
def Spelled (s : Stmt) : Prop :=
  ∀ (level : Nat) (rest : List Char) (ws : List Word), Spells rest ws →
    Spells ((renderAt level s).toList ++ rest) (s.words ++ ws)

private theorem spells_all {body : List Stmt} (each : ∀ s ∈ body, s.Spelled) (level : Nat)
    (behind : Spells rest ws) :
    Spells ((renderAll level body).toList ++ rest) (wordsAll body ++ ws) := by
  induction body with
  | nil => exact behind
  | cons s body ih =>
      simp only [List.forall_mem_cons] at each
      simp only [renderAll, wordsAll, String.toList_append, String.reduceToList, List.cons_append,
        List.nil_append, List.append_assoc]
      exact each.1 level _ _ (.blank rfl (ih each.2))

private theorem spells_else {onFalse : Option Stmt} (each : ∀ s, onFalse = some s → s.Spelled)
    (level : Nat) (behind : Spells rest ws) :
    Spells ((renderElse level onFalse).toList ++ rest) (wordsElse onFalse ++ ws) := by
  cases onFalse with
  | none => exact behind
  | some s =>
      simp only [renderElse, wordsElse, String.toList_append, String.reduceToList, List.cons_append,
        List.nil_append, List.append_assoc]
      refine .blank rfl (spells_indent level (.keyword "else" (by decide) (parted_cons rfl) ?_))
      exact .blank rfl (each s rfl (level + 1) _ _ behind)

private theorem spells_cases {entries : List (Value × Stmt)}
    (each : ∀ entry ∈ entries, entry.2.Spelled) (level : Nat) (behind : Spells rest ws) :
    Spells ((renderCases level entries).toList ++ rest) (wordsCases entries ++ ws) := by
  induction entries with
  | nil => exact behind
  | cons entry entries ih =>
      obtain ⟨label, body⟩ := entry
      simp only [List.forall_mem_cons] at each
      simp only [renderCases, wordsCases, String.toList_append, String.reduceToList,
        List.cons_append, List.nil_append, List.append_assoc]
      refine spells_indent level (.blank rfl (.blank rfl ?_))
      refine .keyword "case" (by decide) (parted_cons rfl) (.blank rfl ?_)
      refine label.spells (parted_cons rfl) (.bracket rfl (by decide) (.blank rfl ?_))
      exact each.1 (level + 2) _ _ (.blank rfl (ih each.2))

private theorem spells_fallback {fallback : Option Stmt}
    (each : ∀ s, fallback = some s → s.Spelled) (level : Nat) (behind : Spells rest ws) :
    Spells ((renderFallback level fallback).toList ++ rest) (wordsFallback fallback ++ ws) := by
  cases fallback with
  | none => exact behind
  | some s =>
      simp only [renderFallback, wordsFallback, String.toList_append, String.reduceToList,
        List.cons_append, List.nil_append, List.append_assoc]
      refine spells_indent level (.blank rfl (.blank rfl ?_))
      refine .keyword "default" (by decide) (parted_cons rfl) (.bracket rfl (by decide) ?_)
      exact .blank rfl (each s rfl (level + 2) _ _ (.blank rfl behind))

theorem spelled (s : Stmt) (named : s.Everywhere WellNamed) : s.Spelled := by
  induction s with
  | declare name value =>
      intro level rest ws behind
      have here := named.here
      simp only [WellNamed, ownNames, List.forall_mem_cons] at here
      simp only [renderAt, words, String.toList_append, String.reduceToList, List.cons_append,
        List.nil_append, List.append_assoc]
      refine spells_indent level (.keyword "declare" (by decide) (parted_cons rfl) ?_)
      refine .blank rfl (.name here.1 (parted_cons rfl) ?_)
      exact .blank rfl (.spaced rfl (spells_value here.2 behind))
  | assign name value =>
      intro level rest ws behind
      have here := named.here
      simp only [WellNamed, ownNames, List.forall_mem_cons] at here
      simp only [renderAt, words, String.toList_append, String.reduceToList, List.cons_append,
        List.nil_append, List.append_assoc]
      refine spells_indent level (.name here.1 (parted_cons rfl) ?_)
      exact .blank rfl (.spaced rfl (spells_value here.2 behind))
  | print value =>
      intro level rest ws behind
      simp only [renderAt, words, String.toList_append, String.reduceToList, List.cons_append,
        List.nil_append, List.append_assoc]
      refine spells_indent level (.keyword "print" (by decide) (parted_cons rfl) ?_)
      exact .blank rfl (spells_value named.here behind)
  | block body ih =>
      intro level rest ws behind
      simp only [renderAt, words, String.toList_append, String.reduceToList, List.cons_append,
        List.nil_append, List.append_assoc]
      refine spells_indent level (.bracket rfl (by decide) (.blank rfl ?_))
      refine spells_all (fun s member => ih s member (named.part (.block member))) (level + 1) ?_
      exact spells_indent level (.bracket rfl (by decide) behind)
  | branch condition onTrue onFalse atTrue atFalse =>
      intro level rest ws behind
      simp only [renderAt, words, String.toList_append, String.reduceToList, List.cons_append,
        List.nil_append, List.append_assoc]
      refine spells_indent level (spells_head "if" (by decide) named.here (.blank rfl ?_))
      refine atTrue (named.part .onTrue) (level + 1) _ _ (spells_else ?_ level behind)
      rintro s rfl
      exact atFalse s rfl (named.part .onFalse)
  | loop condition body ih =>
      intro level rest ws behind
      simp only [renderAt, words, String.toList_append, String.reduceToList, List.cons_append,
        List.nil_append, List.append_assoc]
      refine spells_indent level (spells_head "while" (by decide) named.here (.blank rfl ?_))
      exact ih (named.part .body) (level + 1) _ _ behind
  | switch focus cases fallback atCases atFallback =>
      obtain ⟨entries⟩ := cases
      intro level rest ws behind
      simp only [renderAt, words, String.toList_append, String.reduceToList, List.cons_append,
        List.nil_append, List.append_assoc]
      refine spells_indent level (spells_head "switch" (by decide) named.here ?_)
      refine .blank rfl (.bracket rfl (by decide) (.blank rfl ?_))
      refine spells_cases (fun entry member => atCases entry member (named.part (.case member))) level ?_
      refine spells_fallback ?_ level (spells_indent level (.bracket rfl (by decide) behind))
      rintro s rfl
      exact atFallback s rfl (named.part .fallback)

/-- The text of a tree whose names are names spells its words. -/
theorem spells_render {t : Stmt} (named : t.Everywhere WellNamed) :
    Spells t.render.toList t.words := by
  simpa [render] using t.spelled named 0 [] [] .nil

end Stmt
end Scriptlet
