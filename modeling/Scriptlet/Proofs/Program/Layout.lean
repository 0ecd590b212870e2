import Scriptlet.Proofs.Grammar.Wording
import Scriptlet.Proofs.Program.Sources

/-!
# The layout of a source

What stands between the words of a source does not matter, as long as it parts them.
The texts of its tokens with other spacing between them are the same tokens, so they
write the same program or fail for the same cause. Two programs written one under the
other are one program of the statements of both: a newline ends what may be open at the
end of the first, a comment included, and no statement goes on with the second, since no
program starts with an `else`.
-/

namespace Scriptlet

namespace Lexeme

/-- Blanks, and comments with the newlines that end them. -/
inductive Spacing : List Char → Prop
  | nil : Spacing []
  | blank {c : Char} {cs : List Char} : Text.isBlank c = true → Spacing cs → Spacing (c :: cs)
  | comment {body cs : List Char} :
      '\n' ∉ body → Spacing cs → Spacing ('/' :: '/' :: (body ++ '\n' :: cs))

/-- Spacing that parts a token from what follows: it starts with a blank. -/
inductive Parting : List Char → Prop
  | mk {c : Char} {cs : List Char} : Text.isBlank c = true → Spacing cs → Parting (c :: cs)

variable {c : Char} {cs cs' text gap rest : List Char} {ws ws' : List Word} {k : TokenKind}

theorem Parting.spacing (parting : Parting gap) : Spacing gap := by
  obtain ⟨blank, spacing⟩ := parting
  exact .blank blank spacing

theorem Spacing.of_blanks (blanks : ∀ c ∈ cs, Text.isBlank c = true) : Spacing cs := by
  induction cs with
  | nil => exact .nil
  | cons c cs ih =>
      obtain ⟨blank, others⟩ := List.forall_mem_cons.mp blanks
      exact .blank blank (ih others)

/-- Spacing in front of a text adds no words. -/
theorem Spells.spacing (spacing : Spacing gap) (spells : Spells cs ws) : Spells (gap ++ cs) ws := by
  induction spacing with
  | nil => exact spells
  | blank blank _ ih => exact ih.blank blank
  | @comment body gap silent _ ih =>
      have skips : Skips ('/' :: '/' :: body) ('\n' :: (gap ++ cs)) := .comment silent (by simp)
      have whole := Spells.gap skips.next? (ih.blank rfl)
      simpa using whole

/-- Texts with spacing before the first and behind each of them. -/
def respace (opening : String) : List String → List String → String
  | text :: texts, gap :: gaps => opening ++ text ++ respace gap texts gaps
  | _, _ => opening

theorem respace_append (opening : String) (texts gaps : List String) :
    ∃ rest, (respace opening texts gaps).toList = opening.toList ++ rest := by
  unfold respace
  split
  · exact ⟨_, by rw [String.append_assoc, String.toList_append]⟩
  · exact ⟨[], (List.append_nil _).symm⟩

/-- Words that are parted by spacing are spelled by their texts. -/
theorem spells_respace {opening : String} {gaps : List String}
    (each : ∀ w ∈ ws, Matches w.1 w.2.toList) (count : gaps.length = ws.length)
    (spacing : Spacing opening.toList) (parting : ∀ gap ∈ gaps, Parting gap.toList) :
    Spells (respace opening (ws.map Prod.snd) gaps).toList ws := by
  induction ws generalizing opening gaps with
  | nil =>
      obtain rfl := List.length_eq_zero_iff.mp count
      have alone := Spells.nil.spacing spacing
      rwa [List.append_nil] at alone
  | cons w ws ih =>
      obtain ⟨gap, gaps, rfl⟩ := List.exists_cons_of_length_eq_add_one count
      obtain ⟨found, others⟩ := List.forall_mem_cons.mp each
      obtain ⟨parts, partings⟩ := List.forall_mem_cons.mp parting
      have behind := ih others (Nat.succ.inj count) parts.spacing partings
      -- The gap behind the word starts with a blank, so the word ends there.
      have ends : Ends w.2.toList (respace gap (ws.map Prod.snd) gaps).toList := by
        obtain ⟨rest, starts⟩ := respace_append gap (ws.map Prod.snd) gaps
        rw [starts]
        generalize gap.toList = blanks at parts
        obtain ⟨blank, -⟩ := parts
        exact .of_blank blank
      have spelled := (behind.matched found ends).spacing spacing
      rw [String.ofList_toList] at spelled
      rw [List.map_cons, respace, String.toList_append, String.toList_append, List.append_assoc]
      exact spelled

/-- A token that ends before some text ends before it also if a blank follows. -/
theorem Ends.append_blank (ends : Ends text rest) (blank : Text.isBlank c = true) :
    Ends text (rest ++ c :: cs) := by
  cases rest with
  | nil => exact .of_blank blank
  | cons d others =>
      refine ⟨ends.word, ends.digits, ?_, ends.equals, ends.slash⟩
      intro digit noPoint e more same
      obtain ⟨point, behind⟩ := List.cons.inj same
      cases others with
      | cons d' others =>
          obtain ⟨rfl, -⟩ := List.cons.inj behind
          exact ends.fraction digit noPoint d' others (by rw [point])
      | nil =>
          obtain ⟨rfl, -⟩ := List.cons.inj behind
          by_contra isDigit
          rw [isBlank_of_isDigit (by simpa using isDigit)] at blank
          cases blank

/-- Texts one under the other spell the words of both. -/
theorem Spells.append_newline (first : Spells cs ws) (second : Spells cs' ws') :
    Spells (cs ++ '\n' :: cs') (ws ++ ws') := by
  induction first with
  | nil => exact second.blank rfl
  | @gap cs text rest ws next _ ih =>
      obtain ⟨rfl, skips⟩ := next?_eq_gap_iff.mp next
      rw [List.append_assoc]
      cases skips with
      | blanks _ inside _ => exact ih.spacing (.of_blanks inside)
      | @comment body _ silent stops =>
          have skips : Skips ('/' :: '/' :: body) (rest ++ '\n' :: cs') := by
            refine .comment silent fun c first => ?_
            cases rest with
            | nil => exact (Option.some.inj first).symm
            | cons d others => exact stops c first
          exact .gap skips.next? ih
  | @token cs text rest k ws next _ ih =>
      obtain ⟨rfl, found, ends⟩ := next?_eq_token_iff.mp next
      rw [List.append_assoc]
      exact ih.matched found (ends.append_blank rfl)

end Lexeme

namespace Token

open Lexeme (Spells Spacing Parting respace)

/-- The texts of the tokens that are no end of input. -/
def texts (tokens : List Token) : List String :=
  (tokens.filter (·.kind != .eof)).map Token.text

theorem texts_eq_of_words {tokens : List Token} {ws : List Word} (unended : ∀ w ∈ ws, w.1 ≠ .eof)
    (same : tokens.map word = ws ++ [(.eof, "EOF")]) : texts tokens = ws.map Prod.snd := by
  have kept : ws.filter (·.1 != .eof) = ws := by
    refine List.filter_eq_self.mpr fun w member => ?_
    simpa using unended w member
  have filtered : (tokens.map word).filter (·.1 != .eof) = ws := by
    rw [same, List.filter_append, kept]
    simp
  rw [← filtered, List.filter_map, List.map_map]
  rfl

/-- The texts of the tokens of a source, with other spacing, are the same words. -/
theorem ofSource_respace {file source opening : String} {tokens : List Token} {gaps : List String}
    (cut : ofSource file source = .ok tokens) (count : gaps.length = (texts tokens).length)
    (spacing : Spacing opening.toList) (parting : ∀ gap ∈ gaps, Parting gap.toList)
    (file' : String) :
    ∃ tokens', ofSource file' (respace opening (texts tokens) gaps) = .ok tokens' ∧
      tokens'.map word = tokens.map word := by
  obtain ⟨ws, spells, same⟩ := spells_of_ofSource cut
  have texts := texts_eq_of_words (fun w member => (spells.wellSpelled w member).1) same
  rw [texts, List.length_map] at count
  rw [texts, same]
  exact ofSource_of_spells (Lexeme.spells_respace spells.matches count spacing parting) file'

end Token

namespace Program

open Lexeme (Spells Spacing Parting respace)

/-- The texts of a source with other spacing are the same words, and write the same
program or fail for the same cause. -/
theorem ofSource_respaced {file source opening : String} {tokens : List Token}
    {gaps : List String} (cut : Token.ofSource file source = .ok tokens)
    (count : gaps.length = (Token.texts tokens).length)
    (spacing : Spacing opening.toList) (parting : ∀ gap ∈ gaps, Parting gap.toList)
    (file' : String) :
    (∃ tokens', Token.ofSource file' (respace opening (Token.texts tokens) gaps) = .ok tokens' ∧
      tokens'.map Token.word = tokens.map Token.word) ∧
    (ofSource file' (respace opening (Token.texts tokens) gaps)).mapError SyntaxError.cause =
      (ofSource file source).mapError SyntaxError.cause := by
  obtain ⟨tokens', cut', same⟩ := Token.ofSource_respace cut count spacing parting file'
  refine ⟨⟨tokens', cut', same⟩, ?_⟩
  simp only [ofSource, cut, cut', bind, Except.bind]
  exact ofTokens_congr same

/-- A quotient and a comment, without the semicolon that an assignment needs. -/
def quotient : String := "x=y/2// half"

theorem quotient_respaced :
    ∃ tokens, Token.ofSource "main" quotient = .ok tokens ∧
      Token.texts tokens = ["x", "=", "y", "/", "2"] ∧ Spacing "//=\n".toList ∧
      (∀ gap ∈ [" ", "\t// one\n", "\n", " ", " //\n\n"], Parting gap.toList) ∧
      (∃ tokens', Token.ofSource "copy" "//=\nx =\t// one\ny\n/ 2 //\n\n" = .ok tokens' ∧
        tokens'.map Token.word = tokens.map Token.word) ∧
      (ofSource "copy" "//=\nx =\t// one\ny\n/ 2 //\n\n").mapError SyntaxError.cause =
        (ofSource "main" quotient).mapError SyntaxError.cause := by
  obtain ⟨tokens, cut, texts⟩ : ∃ tokens, Token.ofSource "main" quotient = .ok tokens ∧
      Token.texts tokens = ["x", "=", "y", "/", "2"] :=
    ⟨_, by with_unfolding_all rfl, by with_unfolding_all rfl⟩
  have spacing : Spacing "//=\n".toList :=
    show Spacing ('/' :: '/' :: (['='] ++ '\n' :: [])) from .comment (by decide) .nil
  have parting : ∀ gap ∈ [" ", "\t// one\n", "\n", " ", " //\n\n"], Parting gap.toList := by
    have comment : Parting "\t// one\n".toList :=
      show Parting ('\t' :: '/' :: '/' :: (" one".toList ++ '\n' :: [])) from
        ⟨rfl, .comment (by decide) .nil⟩
    have empty : Parting " //\n\n".toList :=
      show Parting (' ' :: '/' :: '/' :: ([] ++ '\n' :: ['\n'])) from
        ⟨rfl, .comment (by decide) (.blank rfl .nil)⟩
    simp only [List.forall_mem_cons]
    exact ⟨⟨rfl, .nil⟩, comment, ⟨rfl, .nil⟩, ⟨rfl, .nil⟩, empty, List.forall_mem_nil _⟩
  have respaced := ofSource_respaced cut (by rw [texts]; rfl) spacing parting "copy"
  rw [texts] at respaced
  exact ⟨tokens, cut, texts, spacing, parting, respaced⟩

end Program

namespace Grammar

theorem WritesAll.append {seg seg' : List Token} {body body' : List Stmt}
    (first : WritesAll seg body) (second : WritesAll seg' body') :
    WritesAll (seg ++ seg') (body ++ body') := by
  induction body generalizing seg with
  | nil =>
      cases first
      exact second
  | cons s body ih =>
      cases first with
      | cons one others =>
          rw [List.append_assoc]
          exact .cons one (ih others)

/-- Which statements tokens write depends on their words only. -/
theorem WritesAll.congr {seg seg' : List Token} {body : List Stmt} (written : WritesAll seg body)
    (unended : ∀ w ∈ seg.map Token.word, w.1 ≠ .eof)
    (same : seg.map Token.word = seg'.map Token.word) : WritesAll seg' body := by
  have before {seg : List Token} (unended : ∀ w ∈ seg.map Token.word, w.1 ≠ .eof) :
      Token.beforeEnd (seg ++ [.eofAt .null]) = seg :=
    (Token.cut_append (fun t inside => unended t.word (List.mem_map_of_mem inside)) rfl []).1
  have parsed : Program.ofTokens (seg ++ [.eofAt .null]) = .ok (.block body) :=
    Program.ofTokens_eq_ok_iff.mpr ⟨body, rfl, (before unended).symm ▸ written⟩
  have causes : (Program.ofTokens (seg ++ [.eofAt .null])).mapError SyntaxError.cause =
      (Program.ofTokens (seg' ++ [.eofAt .null])).mapError SyntaxError.cause :=
    Program.ofTokens_congr (by rw [List.map_append, same, List.map_append])
  rw [parsed] at causes
  cases parsed' : Program.ofTokens (seg' ++ [.eofAt .null]) with
  | error e =>
      rw [parsed'] at causes
      cases causes
  | ok p =>
      rw [parsed'] at causes
      obtain rfl : Stmt.block body = p := Except.ok.inj causes
      obtain ⟨_, ⟨⟩, written'⟩ := Program.ofTokens_eq_ok_iff.mp parsed'
      rwa [before (same ▸ unended)] at written'

end Grammar

namespace Program

/-- Two programs one under the other are the program of the statements of both. -/
theorem ofSource_append_newline {file₁ file₂ source₁ source₂ : String} {p₁ p₂ : Stmt}
    (first : ofSource file₁ source₁ = .ok p₁) (second : ofSource file₂ source₂ = .ok p₂)
    (file : String) :
    ∃ body₁ body₂, p₁ = .block body₁ ∧ p₂ = .block body₂ ∧
      ofSource file (source₁ ++ "\n" ++ source₂) = .ok (.block (body₁ ++ body₂)) := by
  obtain ⟨tokens₁, body₁, spells₁, rfl, written₁⟩ := exists_written first
  obtain ⟨tokens₂, body₂, spells₂, rfl, written₂⟩ := exists_written second
  refine ⟨body₁, body₂, rfl, rfl, ?_⟩
  have spells : Lexeme.Spells (source₁ ++ "\n" ++ source₂).toList
      ((tokens₁ ++ tokens₂).map Token.word) := by
    have seam : (source₁ ++ "\n" ++ source₂).toList =
        source₁.toList ++ '\n' :: source₂.toList := by simp
    rw [seam, List.map_append]
    exact spells₁.append_newline spells₂
  refine ofSource_of_words spells fun tokens same => ?_
  exact (written₁.append written₂).congr (fun w inside => (spells.wellSpelled w inside).1) same.symm

/-- A conditional that an `else` could follow, and a comment that is open at the end. -/
def openEnded : String := "if (a) b = 1; // then"

theorem openEnded_append_newline :
    ofSource "one" openEnded = .ok (.block [.branch (.var "a") (.assign "b" (.num 1)) none]) ∧
      ofSource "two" "print b;" = .ok (.block [.print (.var "b")]) ∧
      ofSource "both" (openEnded ++ "\n" ++ "print b;") =
        .ok (.block [.branch (.var "a") (.assign "b" (.num 1)) none, .print (.var "b")]) := by
  have first : ofSource "one" openEnded =
      .ok (.block [.branch (.var "a") (.assign "b" (.num 1)) none]) := by
    with_unfolding_all rfl
  have second : ofSource "two" "print b;" = .ok (.block [.print (.var "b")]) := by
    with_unfolding_all rfl
  obtain ⟨_, _, ⟨⟩, ⟨⟩, both⟩ := ofSource_append_newline first second "both"
  exact ⟨first, second, both⟩

end Program
end Scriptlet
