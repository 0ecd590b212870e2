import Scriptlet.Proofs.Token.Matching
import Scriptlet.Token.Source

/-!
# How words are spelled

A word is the kind of a token with its text. `Lexeme.Spells` says that a text is cut
into the given words with gaps between them; the tokens of a source are its words,
closed by the end of input. There is one rule for what may stand in front of a text:
a blank, a name, a numeral or a symbol, where a name or a numeral must not run on into
the text behind it. Conversely, identifiers are names and number words are numerals.
-/

namespace Scriptlet

/-- A kind of token with a text. -/
abbrev Word : Type := TokenKind × String

/-- The kind and the text of a token, without its place. -/
def Token.word (t : Token) : Word := (t.kind, t.text)

namespace Lexeme

/-- A letter and letters, digits or underscores behind it, but no reserved word. -/
def isName (name : String) : Bool :=
  match name.toList with
  | [] => false
  | c :: rest => c.isAlpha && rest.all isWordChar && (reserved.lookup name).isNone

/-- A text is cut into these words, with gaps between them. -/
inductive Spells : List Char → List Word → Prop
  | nil : Spells [] []
  | gap {cs text rest : List Char} {words : List Word} :
      next? cs = some (.gap, text, rest) → Spells rest words → Spells cs words
  | token {cs text rest : List Char} {kind : TokenKind} {words : List Word} :
      next? cs = some (.token kind, text, rest) → Spells rest words →
      Spells cs ((kind, String.ofList text) :: words)

/-- The words of lexemes. -/
def words (file : String) (lexemes : List Lexeme) : List Word :=
  (lexemes.filterMap (token? file)).map Token.word

variable {cs text rest : List Char} {ws : List Word}

theorem cutFrom_none (stuck : next? cs = none) (done : List Lexeme) (offset : Nat) :
    cutFrom done offset cs = ⟨done.reverse, offset, cs⟩ := by
  rw [cutFrom]
  split <;> simp_all

theorem cutFrom_some {kind : LexemeKind} (next : next? cs = some (kind, text, rest))
    (done : List Lexeme) (offset : Nat) :
    cutFrom done offset cs =
      cutFrom (⟨kind, offset, text⟩ :: done) (offset + Text.byteLength text) rest := by
  rw [cutFrom]
  split <;> simp_all

theorem words_append (file : String) (first second : List Lexeme) :
    words file (first ++ second) = words file first ++ words file second := by
  simp [words]

theorem words_gap (file : String) (offset : Nat) (text : List Char) :
    words file [⟨.gap, offset, text⟩] = [] := rfl

theorem words_token (file : String) (kind : TokenKind) (offset : Nat) (text : List Char) :
    words file [⟨.token kind, offset, text⟩] = [(kind, String.ofList text)] := rfl

/-- A text that spells words is cut to its end, into these words. -/
theorem cutFrom_of_spells (file : String) (spells : Spells cs ws) (done : List Lexeme) (offset : Nat) :
    (cutFrom done offset cs).rest = [] ∧
      words file (cutFrom done offset cs).lexemes = words file done.reverse ++ ws := by
  induction spells generalizing done offset with
  | nil =>
      rw [cutFrom_none rfl]
      exact ⟨rfl, (List.append_nil _).symm⟩
  | gap next _ ih =>
      rw [cutFrom_some next]
      obtain ⟨whole, same⟩ := ih (⟨.gap, offset, _⟩ :: done) (offset + Text.byteLength _)
      refine ⟨whole, same.trans ?_⟩
      rw [List.reverse_cons, words_append, words_gap, List.append_nil]
  | token next _ ih =>
      rw [cutFrom_some next]
      obtain ⟨whole, same⟩ := ih (⟨.token _, offset, _⟩ :: done) (offset + Text.byteLength _)
      refine ⟨whole, same.trans ?_⟩
      rw [List.reverse_cons, words_append, words_token, List.append_assoc, List.singleton_append]

/-- A text that is cut to its end spells the words that it is cut into. -/
theorem spells_of_cutFrom (file : String) (done : List Lexeme) (offset : Nat) (cs : List Char)
    (whole : (cutFrom done offset cs).rest = []) :
    ∃ ws, Spells cs ws ∧
      words file (cutFrom done offset cs).lexemes = words file done.reverse ++ ws := by
  induction n : cs.length using Nat.strongRecOn generalizing done offset cs with
  | ind n ih =>
  cases next : next? cs with
  | none =>
      rw [cutFrom_none next] at whole ⊢
      obtain rfl : cs = [] := whole
      exact ⟨[], .nil, (List.append_nil _).symm⟩
  | some found =>
      obtain ⟨kind, text, rest⟩ := found
      rw [cutFrom_some next] at whole ⊢
      obtain ⟨ws, spells, same⟩ := ih rest.length (n ▸ next?_length next) _ _ _ whole rfl
      rw [List.reverse_cons, words_append] at same
      cases kind with
      | gap => exact ⟨ws, .gap next spells, by rw [same, words_gap, List.append_nil]⟩
      | token kind =>
          refine ⟨_, .token next spells, ?_⟩
          rw [same, words_token, List.append_assoc, List.singleton_append]

end Lexeme

namespace Token

open Lexeme (Spells)

/-- A source that spells words has them as its tokens, up to the end of input. -/
theorem ofSource_of_spells {source : String} {ws : List Word} (spells : Spells source.toList ws)
    (file : String) :
    ∃ tokens, ofSource file source = .ok tokens ∧ tokens.map word = ws ++ [(.eof, "EOF")] := by
  obtain ⟨whole, same⟩ := Lexeme.cutFrom_of_spells file spells [] 0
  refine ⟨_, by simp only [ofSource, Lexeme.cutAll, whole]; rfl, ?_⟩
  rw [List.map_append]
  exact congrArg (· ++ _) same

theorem spells_of_ofSource {file source : String} {tokens : List Token}
    (cut : ofSource file source = .ok tokens) :
    ∃ ws, Spells source.toList ws ∧ tokens.map word = ws ++ [(.eof, "EOF")] := by
  simp only [ofSource, Lexeme.cutAll] at cut
  split at cut
  · rename_i whole
    obtain ⟨ws, spells, same⟩ := Lexeme.spells_of_cutFrom file [] 0 source.toList whole
    cases cut
    refine ⟨ws, spells, ?_⟩
    rw [List.map_append]
    exact congrArg (· ++ _) same
  · cases cut

end Token

namespace Lexeme

variable {c : Char} {cs digits rest : List Char} {k : TokenKind} {ws : List Word}

theorem next?_blank (blank : Text.isBlank c = true) (cs : List Char) :
    next? (c :: cs) = some (.gap, c :: cs.takeWhile Text.isBlank, cs.dropWhile Text.isBlank) := by
  simp [next?, blank, span]

namespace Spells

theorem dropBlanks (spells : Spells cs ws) : Spells (cs.dropWhile Text.isBlank) ws := by
  cases cs with
  | nil => exact spells
  | cons c rest =>
      by_cases blank : Text.isBlank c = true
      · rw [List.dropWhile_cons_of_pos blank]
        cases spells with
        | gap found inner =>
            rw [next?_blank blank] at found
            cases found
            exact inner
        | token found =>
            rw [next?_blank blank] at found
            cases found
      · rwa [List.dropWhile_cons_of_neg blank]

theorem blank (blank : Text.isBlank c = true) (spells : Spells cs ws) :
    Spells (c :: cs) ws := .gap (next?_blank blank cs) spells.dropBlanks

theorem matched {text : List Char} (found : Matches k text) (ends : Ends text rest)
    (spells : Spells rest ws) : Spells (text ++ rest) ((k, String.ofList text) :: ws) :=
  .token (found.next? ends) spells

theorem letters {word : List Char} (start : word.head?.any Char.isAlpha = true)
    (inside : ∀ c ∈ word, isWordChar c = true) (parted : Parted rest) (spells : Spells rest ws) :
    Spells (word ++ rest) ((wordKind (String.ofList word), String.ofList word) :: ws) := by
  cases word with
  | nil => cases start
  | cons c letters =>
      have letter : c.isAlpha = true := by simpa using start
      refine .matched (.word letter (List.forall_mem_cons.mp inside).2) ?_ spells
      exact .of_letter letter fun d first => (parted d first).1

theorem numeral {d : Decimal} (numeral : Decimal.Numeral digits d) (parted : Parted rest)
    (spells : Spells rest ws) : Spells (digits ++ rest) ((.number, String.ofList digits) :: ws) := by
  obtain ⟨c, more, rfl, digit⟩ := numeral.starts
  refine .matched (.numeral numeral) ?_ spells
  refine .of_digit digit (fun d first => parted.isDigit first) fun _ d others same => ?_
  exact absurd rfl (parted '.' (by rw [same]; rfl)).2

theorem symbol (symbol : symbolKind? c = some k)
    (alone : ∀ d ∈ cs.head?, pairKind? c d = none ∧ (c = '/' → d ≠ '/'))
    (spells : Spells cs ws) : Spells (c :: cs) ((k, String.ofList [c]) :: ws) := by
  obtain ⟨-, noLetter, noDigit, -⟩ := class_of_symbolKind? symbol
  refine .matched (.symbol symbol) (.of_symbol noLetter noDigit ?_ ?_) spells
  · rintro ⟨⟩ first
    exact absurd (alone '=' first).1 (by decide)
  · rintro ⟨⟩ first
    exact (alone '/' first).2 rfl rfl

theorem pair {d : Char} (pair : pairKind? c d = some k) (spells : Spells cs ws) :
    Spells (c :: d :: cs) ((k, String.ofList [c, d]) :: ws) := by
  obtain ⟨-, noLetter, noDigit, -⟩ := class_of_pairKind? pair
  exact .matched (.pair pair) (.of_symbol noLetter noDigit (by simp) (by simp)) spells

end Spells

theorem Spells.matches (spells : Spells cs ws) : ∀ w ∈ ws, Matches w.1 w.2.toList := by
  induction spells with
  | nil => simp
  | gap _ _ ih => exact ih
  | token next _ ih =>
      refine List.forall_mem_cons.mpr ⟨?_, ih⟩
      rw [String.toList_ofList]
      exact (matches_of_next? next).1

/-- A word of a kind whose text matters has the text of its kind. -/
def WellSpelled (w : Word) : Prop :=
  w.1 ≠ .eof ∧ (w.1 = .identifier → isName w.2 = true) ∧
    (w.1 = .number → ∃ d, Decimal.Numeral w.2.toList d)

theorem WellSpelled.of_kind {w : Word} (other : w.1 ∉ textKinds) : WellSpelled w := by
  simp only [textKinds, List.mem_cons, List.not_mem_nil, or_false, not_or] at other
  exact ⟨other.1, fun name => absurd name other.2.1, fun number => absurd number other.2.2⟩

theorem wellSpelled_letters {letters : List Char} (letter : c.isAlpha = true)
    (inside : ∀ d ∈ letters, isWordChar d = true) :
    WellSpelled (wordKind (String.ofList (c :: letters)), String.ofList (c :: letters)) := by
  cases found : reserved.lookup (String.ofList (c :: letters)) with
  | some kind =>
      have each : ∀ entry ∈ reserved, entry.2 ∉ textKinds := by decide
      obtain ⟨before, behind, split, -⟩ := List.lookup_eq_some_iff.mp found
      refine .of_kind ?_
      simp only [wordKind, found, Option.getD_some]
      exact each (_, kind) (split ▸ List.mem_append_right before List.mem_cons_self)
  | none =>
      simp only [wordKind, found, Option.getD_none]
      refine ⟨by simp, fun _ => ?_, by simp⟩
      simp only [isName, String.toList_ofList, letter, found, Option.isNone_none, Bool.and_true,
        Bool.true_and, List.all_eq_true]
      exact inside

namespace Matches

theorem wellSpelled {text : List Char} (found : Matches k text) :
    WellSpelled (k, String.ofList text) := by
  cases found with
  | word letter inside => exact wellSpelled_letters letter inside
  | numeral numeral => exact ⟨by simp, by simp, fun _ => ⟨_, by simpa using numeral⟩⟩
  | symbol symbol => exact .of_kind (class_of_symbolKind? symbol).2.2.2.1
  | pair pair => exact .of_kind (class_of_pairKind? pair).2.2.2.2.1

/-- A word that starts with a letter has the kind of that word. -/
theorem kind_of_letter {text : List Char} (found : Matches k text)
    (letter : text.head?.any Char.isAlpha = true) : k = wordKind (String.ofList text) := by
  cases found with
  | word => rfl
  | numeral numeral =>
      obtain ⟨c, more, rfl, digit⟩ := numeral.starts
      simp [isAlpha_of_isDigit digit] at letter
  | symbol symbol => simp [(class_of_symbolKind? symbol).2.1] at letter
  | pair pair => simp [(class_of_pairKind? pair).2.1] at letter

/-- A token is a name exactly if its text is one. -/
theorem eq_identifier_iff {text : List Char} (found : Matches k text) :
    k = .identifier ↔ isName (String.ofList text) = true := by
  constructor
  · exact found.wellSpelled.2.1
  · intro named
    cases text with
    | nil => simp [isName] at named
    | cons c letters =>
        simp only [isName, String.toList_ofList, Bool.and_eq_true,
          Option.isNone_iff_eq_none] at named
        rw [found.kind_of_letter (by simpa using named.1.1), wordKind, named.2]
        rfl

/-- A token has the kind of a reserved word exactly if its text is that word. -/
theorem eq_reserved_iff {text : List Char} (found : Matches k text) {k' : TokenKind}
    (kept : k' ∈ reservedKinds) : k = k' ↔ (String.ofList text, k') ∈ reserved := by
  constructor
  · rintro rfl
    cases found with
    | @word c letters _ _ =>
        rw [wordKind] at kept ⊢
        cases listed : reserved.lookup (String.ofList (c :: letters)) with
        | none =>
            rw [listed] at kept
            exact absurd kept (by decide)
        | some kind =>
            obtain ⟨before, behind, split, -⟩ := List.lookup_eq_some_iff.mp listed
            rw [split]
            exact List.mem_append_right before List.mem_cons_self
    | numeral => exact absurd kept (by decide)
    | symbol symbol => exact absurd kept (class_of_symbolKind? symbol).2.2.2.2
    | pair pair => exact absurd kept (class_of_pairKind? pair).2.2.2.2.2
  · intro listed
    have each : ∀ entry ∈ reserved, entry.1.toList.head?.any Char.isAlpha = true ∧
        wordKind entry.1 = entry.2 := by decide
    obtain ⟨letter, same⟩ := each _ listed
    rw [String.toList_ofList] at letter
    rw [found.kind_of_letter letter, same]

end Matches

theorem Spells.wellSpelled (spells : Spells cs ws) : ∀ w ∈ ws, WellSpelled w := by
  intro w inside
  simpa using (spells.matches w inside).wellSpelled

end Lexeme
end Scriptlet
