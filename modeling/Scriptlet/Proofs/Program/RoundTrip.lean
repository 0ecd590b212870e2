import Scriptlet.Proofs.Program.Sources
import Scriptlet.Proofs.Stmt.Equality

/-!
# Reading back what is printed

The text of a tree reads as the tree, one block deeper, exactly if the tree is
printable. A program that comes from a text is printable unless one of its numbers
is too large for a double: such a number is infinite, and is printed as a name.
-/

namespace Scriptlet.Program

open Binary64
open Lexeme (Spells)

variable {file source : String} {p t : Stmt}

/-- A tree whose text reads as an equal tree is printable. -/
theorem printable_of_readBack (parsed : ofSource file t.render = .ok p)
    (same : p.equal (.block [t]) = true) : t.Printable := by
  have inside : Stmt.Part (.block [t]) t := .block (by simp)
  have text := fromText_of_ofSource parsed
  have named : t.Everywhere Stmt.WellNamed :=
    ((text.mono fun _ own => own.named).of_equal same fun _ _ => .of_equal).part inside
  have clear : t.Everywhere Stmt.Unambiguous :=
    ((text.mono fun _ own => own.unambiguous).of_equal same fun _ _ => .of_equal).part inside
  -- With names for names the text has the words of the tree, so all its numbers are finite.
  obtain ⟨tokens, spells, drawn⟩ := exists_drawn parsed
  have words : tokens.map Token.word = t.words := spells.unique (Stmt.spells_render named)
  have printed : ∀ token ∈ tokens, token.word.Printed := fun token member =>
    t.printed_words _ (words ▸ List.mem_map_of_mem member)
  have written : p.Everywhere Stmt.Written := fun s within =>
    (text s within).written ((drawn s within).finiteNumbers printed)
  exact ⟨named, (written.of_equal same fun _ _ => .of_equal).part inside, clear⟩

/-- A printable tree equals what its text reads as. -/
theorem readBack_of_printable (file : String) (printable : t.Printable)
    (keyed : t.Everywhere Stmt.Keyed) :
    ∃ p, ofSource file t.render = .ok p ∧ p.equal (.block [t]) = true := by
  refine ⟨_, ofSource_render file printable keyed, ?_⟩
  simp [Stmt.equal, Stmt.equalAll, Stmt.reread_equal printable.2.1]

/-- Printing and reading are inverse to each other on the printable trees, and on no
others. -/
theorem ofSource_render_iff_printable (file : String) (keyed : t.Everywhere Stmt.Keyed) :
    (∃ p, ofSource file t.render = .ok p ∧ p.equal (.block [t]) = true) ↔ t.Printable := by
  constructor
  · rintro ⟨p, parsed, same⟩
    exact printable_of_readBack parsed same
  · intro printable
    exact readBack_of_printable file printable keyed

/-- A `switch` with a negative label. -/
def signedCase : Stmt :=
  .switch (.var "n") (.ofList [(.num (-2.5), .print (.num 0.1))]) none

theorem everywhere_signedCase {holds : Stmt → Prop} (here : holds signedCase)
    (inside : holds (.print (.num 0.1))) : signedCase.Everywhere holds := by
  refine Stmt.everywhere_switch.mpr ⟨here, List.forall_mem_singleton.mpr ?_⟩
  exact Stmt.everywhere_print.mpr inside

theorem written_signedCase : signedCase.Everywhere Stmt.Written := by
  refine everywhere_signedCase ⟨by decide, fun x labelled => ?_⟩ ⟨by decide, nofun⟩
  obtain rfl : x = -2.5 := Value.num.inj (List.mem_singleton.mp labelled)
  decide

theorem signedCase_readBack :
    signedCase.Everywhere Stmt.Keyed ∧
      ∃ p, ofSource "main" signedCase.render = .ok p ∧ p.equal (.block [signedCase]) = true := by
  have keyed : signedCase.Everywhere Stmt.Keyed :=
    everywhere_signedCase (by rintro _ _ _ ⟨⟩; exact ⟨_, rfl⟩) nofun
  have named : signedCase.Everywhere Stmt.WellNamed :=
    everywhere_signedCase (by decide) (by decide)
  have clear : signedCase.Everywhere Stmt.Unambiguous := everywhere_signedCase nofun nofun
  exact ⟨keyed, (ofSource_render_iff_printable "main" keyed).mpr ⟨named, written_signedCase, clear⟩⟩

/-- A program is printable if its numbers are finite. -/
theorem printable_of_finite (parsed : ofSource file source = .ok p)
    (finite : p.Everywhere Stmt.FiniteNumbers) : p.Printable := by
  have text := fromText_of_ofSource parsed
  exact ⟨text.mono fun _ own => own.named,
    fun s within => (text s within).written (finite s within),
    text.mono fun _ own => own.unambiguous⟩

/-- A program is read back from its text exactly if all its numbers are finite. -/
theorem readBack_iff_finite (parsed : ofSource file source = .ok p) (file' : String) :
    (∃ p', ofSource file' p.render = .ok p' ∧ p'.equal (.block [p]) = true) ↔
      p.Everywhere Stmt.FiniteNumbers := by
  constructor
  · rintro ⟨p', parsed', same⟩
    obtain ⟨-, written, -⟩ := printable_of_readBack parsed' same
    exact written.mono fun _ own => own.finiteNumbers
  · intro finite
    refine readBack_of_printable file' (printable_of_finite parsed finite) ?_
    exact (fromText_of_ofSource parsed).mono fun _ own => own.keyed

theorem signedCase_source_readBack :
    ∃ p, ofSource "main" "switch (n) \x7b case -2.5: print 0.1; \x7d" = .ok p ∧
      ∃ p', ofSource "dump" p.render = .ok p' ∧ p'.equal (.block [p]) = true := by
  have parsed : ofSource "main" "switch (n) \x7b case -2.5: print 0.1; \x7d" =
      .ok (.block [signedCase]) := by
    with_unfolding_all rfl
  have finite : (Stmt.block [signedCase]).Everywhere Stmt.FiniteNumbers := by
    refine Stmt.everywhere_block.mpr ⟨Stmt.finiteNumbers_block _, ?_⟩
    refine List.forall_mem_singleton.mpr ?_
    exact written_signedCase.mono fun _ own => own.finiteNumbers
  exact ⟨_, parsed, (readBack_iff_finite parsed "dump").mpr finite⟩

/-- The digits of `10 ^ 309`, which is beyond every finite double. -/
def beyondDoubles : List Char := Decimal.plain ⟨1, 309⟩

theorem read?_beyondDoubles : Decimal.read? beyondDoubles = some (ofRank false infinityRank) := by
  have rank : (Decimal.positional ⟨1, 309⟩).toRank = infinityRank := by decide +kernel
  rw [beyondDoubles, (Decimal.numeral_plain _).read?, rank]

/-- A program that prints it. -/
def overflow : String := "print " ++ String.ofList beyondDoubles ++ ";"

theorem spells_overflow : Spells overflow.toList
    [(.printWord, "print"), (.number, String.ofList beyondDoubles), (.semicolon, ";")] := by
  simp only [overflow, String.toList_append, String.toList_ofList, String.reduceToList,
    List.cons_append, List.nil_append]
  refine .keyword "print" (by decide) (Lexeme.parted_cons rfl) (.blank rfl ?_)
  exact .numeral (Decimal.numeral_plain _) (Lexeme.parted_cons rfl) (.bracket rfl (by decide) .nil)

theorem ofSource_overflow :
    ofSource file overflow = .ok (.block [.print (.num (ofRank false infinityRank))]) := by
  refine ofSource_of_words spells_overflow fun tokens same => ?_
  obtain ⟨word, _, rfl, isWord, -, same⟩ := Grammar.cons_of_words same
  obtain ⟨number, _, rfl, isNumber, text, same⟩ := Grammar.cons_of_words same
  obtain ⟨stop, rfl, isStop, -⟩ := Grammar.singleton_of_words same
  have whole : Grammar.wholeExpr? [number] = some (.num (ofRank false infinityRank)) := by
    refine Grammar.wholeExpr?_of_operand (by simp [isNumber]) ?_
    intro c d passes
    refine Grammar.operand_of_number passes isNumber ?_
    rw [text, String.toList_ofList, read?_beyondDoubles]
  exact .cons (.print isWord whole isStop) .nil

theorem overflow_not_readBack :
    ∃ p, ofSource "main" overflow = .ok p ∧
      ¬ ∃ p', ofSource "dump" p.render = .ok p' ∧ p'.equal (.block [p]) = true := by
  refine ⟨_, ofSource_overflow, ?_⟩
  rintro ⟨p', parsed, same⟩
  obtain ⟨-, written, -⟩ := printable_of_readBack parsed same
  have finite := ((written.part (.block (List.mem_singleton_self _))).here.literals _
    (List.mem_singleton_self _) _ (List.mem_singleton_self _)).1
  rw [isFinite_eq, (rank_ofRank false le_rfl).2] at finite
  exact absurd finite (by decide)

end Scriptlet.Program
