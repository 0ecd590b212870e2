import Scriptlet.Program
import Scriptlet.Proofs.Grammar.Provenance
import Scriptlet.Proofs.Grammar.Rereading

/-!
# Programs and their source texts

What the parser gives for a source text, seen through the words of the text. A tree
whose text can be read is read back as a block around the tree. Conversely, all names
and numbers of a program come from the words of its text, so they are names of the
language and numbers without a sign.
-/

namespace Scriptlet

open Binary64
open Lexeme (Spells)

/-- A text is cut into words in one way only. -/
theorem Lexeme.Spells.unique {cs : List Char} {ws ws' : List Word} (spells : Spells cs ws)
    (spells' : Spells cs ws') : ws = ws' := by
  induction spells generalizing ws' with
  | nil =>
      cases spells' with
      | nil => rfl
      | gap found => cases found
      | token found => cases found
  | gap found _ ih =>
      cases spells' with
      | nil => cases found
      | gap found' inner => cases found.symm.trans found'; exact ih inner
      | token found' => cases found.symm.trans found'
  | token found _ ih =>
      cases spells' with
      | nil => cases found
      | gap found' => cases found.symm.trans found'
      | token found' inner => cases found.symm.trans found'; rw [ih inner]

namespace Program

variable {file source : String} {p : Stmt}

theorem ofSource_of_tokens {tokens : List Token} (cut : Token.ofSource file source = .ok tokens)
    (parsed : ofTokens tokens = .ok p) : ofSource file source = .ok p := by
  simp only [ofSource, cut, bind, Except.bind, parsed]

/-- The tokens of a text are its words, closed by the end of input. -/
private theorem beforeEnd_of_words {tokens : List Token} {ws : List Word}
    (unended : ∀ w ∈ ws, w.1 ≠ .eof) (same : tokens.map Token.word = ws ++ [(.eof, "EOF")]) :
    (Token.beforeEnd tokens).map Token.word = ws := by
  obtain ⟨before, last, rfl, rfl, spelled⟩ := List.map_eq_append_iff.mp same
  obtain ⟨t, rest, rfl, ended, -⟩ := List.map_eq_cons_iff.mp spelled
  rw [(Token.cut_append _ (congrArg Prod.fst ended) rest).1]
  exact fun t inside => unended t.word (List.mem_map_of_mem inside)

/-- The statements of a program are written by the words of its text. -/
theorem exists_written (parsed : ofSource file source = .ok p) :
    ∃ tokens body, Spells source.toList (tokens.map Token.word) ∧ p = .block body ∧
      Grammar.WritesAll tokens body := by
  simp only [ofSource, bind, Except.bind] at parsed
  split at parsed
  · cases parsed
  · rename_i tokens cut
    obtain ⟨ws, spells, same⟩ := Token.spells_of_ofSource cut
    obtain ⟨body, rfl, written⟩ := ofTokens_eq_ok_iff.mp parsed
    refine ⟨_, body, ?_, rfl, written⟩
    rwa [beforeEnd_of_words (fun w inside => (spells.wellSpelled w inside).1) same]

/-- A text whose words write statements is the program of these. -/
theorem ofSource_of_words {ws : List Word} {body : List Stmt} (spells : Spells source.toList ws)
    (written : ∀ tokens : List Token, tokens.map Token.word = ws → Grammar.WritesAll tokens body) :
    ofSource file source = .ok (.block body) := by
  obtain ⟨tokens, cut, same⟩ := Token.ofSource_of_spells spells file
  have words := beforeEnd_of_words (fun w inside => (spells.wellSpelled w inside).1) same
  refine ofSource_of_tokens cut (ofTokens_eq_ok_iff.mpr ⟨body, rfl, ?_⟩)
  exact written _ words

/-- A printable tree is read back from its text, one block deeper. -/
theorem ofSource_render (file : String) {t : Stmt} (printable : t.Printable)
    (keyed : t.Everywhere Stmt.Keyed) : ofSource file t.render = .ok (.block [t.reread]) := by
  obtain ⟨named, written, clear⟩ := printable
  refine ofSource_of_words (Stmt.spells_render named) fun tokens same => ?_
  have readable : t.Everywhere Stmt.Readable := fun s inside =>
    ⟨written s inside, clear s inside, keyed s inside⟩
  have first := Grammar.writes_of_words t readable tokens same
  simpa using Grammar.WritesAll.cons first .nil

end Program

namespace Stmt

/-- All numbers directly in a statement are finite. -/
structure FiniteNumbers (s : Stmt) : Prop where
  literals : ∀ e ∈ s.exprs, ∀ x ∈ e.literals, x.isFinite = true
  labels : ∀ x, .num x ∈ s.labels → x.isFinite = true

theorem finiteNumbers_block (body : List Stmt) : (Stmt.block body).FiniteNumbers :=
  ⟨List.forall_mem_nil _, fun _ labelled => absurd labelled List.not_mem_nil⟩

/-- What every statement of a program has by coming from a text. -/
structure FromText (s : Stmt) : Prop where
  named : s.WellNamed
  literals : ∀ e ∈ s.exprs, ∀ x ∈ e.literals, ∃ r ≤ infinityRank, x = ofRank false r
  unambiguous : s.Unambiguous
  keyed : s.Keyed

variable {s : Stmt} {tokens : List Token}

theorem DrawnFrom.fromText (drawn : s.DrawnFrom tokens)
    (spelled : ∀ t ∈ tokens, Lexeme.WellSpelled t.word) : s.FromText where
  named name own := by
    obtain ⟨t, inside, kind, rfl⟩ := drawn.names name own
    exact (spelled t inside).2.1 kind
  literals e own x literal := by
    obtain ⟨t, inside, kind, read⟩ := drawn.literals e own x literal
    obtain ⟨d, numeral⟩ := (spelled t inside).2.2 kind
    refine ⟨d.toRank, Decimal.toRank_le d, ?_⟩
    exact Option.some_injective _ (read.symm.trans numeral.read?)
  unambiguous := drawn.unambiguous
  keyed := drawn.keyed

theorem DrawnFrom.finiteNumbers (drawn : s.DrawnFrom tokens)
    (printed : ∀ t ∈ tokens, t.word.Printed) : s.FiniteNumbers := by
  have said {t : Token} {x : Float} (inside : t ∈ tokens) (number : t.Says x) :
      x.isFinite = true := by
    obtain ⟨y, read, finite⟩ := (printed t inside).2 number.1
    cases read.symm.trans number.2
    exact finite
  constructor
  · intro e own x literal
    obtain ⟨t, inside, number⟩ := drawn.literals e own x literal
    exact said inside number
  · intro x labelled
    obtain ⟨t, inside, number | ⟨y, number, rfl⟩⟩ := drawn.labels x labelled
    · exact said inside number
    · exact isFinite_neg (said inside number)

theorem Written.finiteNumbers (written : s.Written) : s.FiniteNumbers :=
  ⟨fun e own x literal => (written.literals e own x literal).1, written.labels⟩

theorem FromText.written (text : s.FromText) (finite : s.FiniteNumbers) : s.Written where
  literals e own x literal := by
    refine ⟨finite.literals e own x literal, fun negative => ?_⟩
    obtain ⟨r, number, rfl⟩ := text.literals e own x literal
    have sign := (lt_zero_iff.mp negative).1
    rw [(rank_ofRank false number).1] at sign
    cases sign
  labels := finite.labels

end Stmt

namespace Program

variable {file source : String} {p : Stmt}

theorem exists_drawn (parsed : ofSource file source = .ok p) :
    ∃ tokens, Spells source.toList (tokens.map Token.word) ∧
      p.Everywhere (Stmt.DrawnFrom tokens) := by
  obtain ⟨tokens, body, spells, rfl, written⟩ := exists_written parsed
  refine ⟨tokens, spells, Stmt.everywhere_block.mpr ⟨Stmt.drawnFrom_block tokens body, ?_⟩⟩
  exact written.drawn (List.Subset.refl _)

theorem fromText_of_ofSource (parsed : ofSource file source = .ok p) :
    p.Everywhere Stmt.FromText := by
  obtain ⟨tokens, spells, drawn⟩ := exists_drawn parsed
  refine drawn.mono fun s own => own.fromText fun t inside => ?_
  exact spells.wellSpelled _ (List.mem_map_of_mem inside)

end Program
end Scriptlet
