import Scriptlet.Proofs.Number.Reading
import Scriptlet.Token.Lexeme

/-!
# The first lexeme of a text

`Lexeme.next?` is described without its cases. `Matches` says which texts are those of
a token, and `Ends` that the text behind one does not go on with it; `Skips` says the
same of a gap. The first lexeme of a text is the one split of the text with these
properties (`next?_eq_token_iff`, `next?_eq_gap_iff`), and there is none only where no
token and no gap begins (`startsNothing_of_next?`). What stands behind a lexeme matters
only where the lexeme stops: a shorter text behind it, or a blank, leaves it as it is.
-/

namespace Scriptlet.Lexeme

variable {c d : Char} {cs text behind rest digits : List Char} {k : TokenKind}

/-- The texts of tokens: a word, a numeral, a symbol or a pair of symbols. -/
inductive Matches : TokenKind → List Char → Prop
  | word {c : Char} {letters : List Char} : c.isAlpha = true →
      (∀ d ∈ letters, isWordChar d = true) →
      Matches (wordKind (String.ofList (c :: letters))) (c :: letters)
  | numeral {digits : List Char} {d : Decimal} : Decimal.Numeral digits d → Matches .number digits
  | symbol {c : Char} {k : TokenKind} : symbolKind? c = some k → Matches k [c]
  | pair {c d : Char} {k : TokenKind} : pairKind? c d = some k → Matches k [c, d]

/-- What stands behind the text of a token does not go on with it. -/
structure Ends (text behind : List Char) : Prop where
  word : text.head?.any Char.isAlpha = true → ∀ c ∈ behind.head?, isWordChar c = false
  digits : text.head?.any Char.isDigit = true → ∀ c ∈ behind.head?, c.isDigit = false
  fraction : text.head?.any Char.isDigit = true → '.' ∉ text →
    ∀ c rest, behind = '.' :: c :: rest → c.isDigit = false
  equals : text = ['='] → behind.head? ≠ some '='
  slash : text = ['/'] → behind.head? ≠ some '/'

/-- The texts between tokens: blanks up to the next other character, or a comment up to
the end of its line. -/
inductive Skips : List Char → List Char → Prop
  | blanks {text behind : List Char} : text ≠ [] → (∀ c ∈ text, Text.isBlank c = true) →
      (∀ c ∈ behind.head?, Text.isBlank c = false) → Skips text behind
  | comment {body behind : List Char} : '\n' ∉ body → (∀ c ∈ behind.head?, c = '\n') →
      Skips ('/' :: '/' :: body) behind

/-- No token, blank or comment begins here. -/
structure StartsNothing (cs : List Char) : Prop where
  token : ∀ text behind k, cs = text ++ behind → ¬ Matches k text
  blank : ∀ c ∈ cs.head?, Text.isBlank c = false
  comment : ∀ behind, cs ≠ '/' :: '/' :: behind

theorem toNat_of_isAlpha (letter : c.isAlpha = true) : 65 ≤ c.toNat ∧ c.toNat ≤ 122 := by
  unfold Char.isAlpha Char.isUpper Char.isLower at letter
  simp only [Bool.or_eq_true, Bool.and_eq_true, decide_eq_true_eq, UInt32.le_iff_toNat_le,
    ge_iff_le, Char.reduceVal, UInt32.reduceToNat] at letter
  change 65 ≤ c.val.toNat ∧ c.val.toNat ≤ 122
  omega

theorem toNat_of_isDigit (digit : c.isDigit = true) : 48 ≤ c.toNat ∧ c.toNat ≤ 57 := by
  simp only [Char.isDigit, Bool.and_eq_true, decide_eq_true_eq, UInt32.le_iff_toNat_le,
    ge_iff_le] at digit
  exact digit

theorem isAlpha_of_isDigit (digit : c.isDigit = true) : c.isAlpha = false := by
  by_contra letter
  have low := toNat_of_isDigit digit
  have high := toNat_of_isAlpha (c := c) (by simpa using letter)
  omega

theorem isDigit_of_isAlpha (letter : c.isAlpha = true) : c.isDigit = false := by
  by_contra digit
  rw [isAlpha_of_isDigit (by simpa using digit)] at letter
  cases letter

/-- What shows on paper is no blank. -/
theorem isBlank_eq_false (low : 33 ≤ c.toNat) (high : c.toNat ≤ 126) : Text.isBlank c = false := by
  unfold Text.isBlank
  simp only [Bool.or_eq_false_iff, Bool.and_eq_false_iff, decide_eq_false_iff_not,
    beq_eq_false_iff_ne]
  omega

theorem isBlank_of_isAlpha (letter : c.isAlpha = true) : Text.isBlank c = false := by
  have range := toNat_of_isAlpha letter
  exact isBlank_eq_false (by omega) (by omega)

theorem isBlank_of_isDigit (digit : c.isDigit = true) : Text.isBlank c = false := by
  have range := toNat_of_isDigit digit
  exact isBlank_eq_false (by omega) (by omega)

theorem ne_slash (high : 48 ≤ c.toNat) : c ≠ '/' := by
  rintro rfl
  exact absurd high (by decide)

/-- The kinds of names and numerals, and of the end of input, which is no word. -/
def textKinds : List TokenKind := [.eof, .identifier, .number]

/-- The kinds of reserved words. -/
def reservedKinds : List TokenKind := reserved.map Prod.snd

/-- A symbol is no blank, letter or digit, and of a kind of its own. -/
theorem class_of_symbolKind? (symbol : symbolKind? c = some k) :
    Text.isBlank c = false ∧ c.isAlpha = false ∧ c.isDigit = false ∧
      k ∉ textKinds ∧ k ∉ reservedKinds := by
  have member : c ∈ ['\x7b', '\x7d', '(', ')', '=', '!', '<', '>', ';', ':', '+', '-', '/', '*',
      '^'] := by
    by_contra absent
    simp only [List.mem_cons, List.not_mem_nil, or_false, not_or] at absent
    simp [symbolKind?, absent] at symbol
  have each : (['\x7b', '\x7d', '(', ')', '=', '!', '<', '>', ';', ':', '+', '-', '/', '*', '^'].all
      fun c => (symbolKind? c).all fun k => Text.isBlank c = false ∧ c.isAlpha = false ∧
        c.isDigit = false ∧ k ∉ textKinds ∧ k ∉ reservedKinds) = true := by decide
  have here := List.all_eq_true.mp each c member
  rwa [symbol, Option.all_some, decide_eq_true_iff] at here

/-- So is a pair of symbols, of which the first does not start a comment. -/
theorem class_of_pairKind? (pair : pairKind? c d = some k) :
    Text.isBlank c = false ∧ c.isAlpha = false ∧ c.isDigit = false ∧ c ≠ '/' ∧
      k ∉ textKinds ∧ k ∉ reservedKinds := by
  have member : (c, d) ∈ [('=', '='), ('|', '|'), ('&', '&')] := by
    by_contra absent
    simp only [List.mem_cons, List.not_mem_nil, or_false, not_or, Prod.mk.injEq] at absent
    simp [pairKind?, absent] at pair
  have each : ([('=', '='), ('|', '|'), ('&', '&')].all fun p => (pairKind? p.1 p.2).all fun k =>
      Text.isBlank p.1 = false ∧ p.1.isAlpha = false ∧ p.1.isDigit = false ∧ p.1 ≠ '/' ∧
        k ∉ textKinds ∧ k ∉ reservedKinds) = true := by decide
  have here := List.all_eq_true.mp each (c, d) member
  rwa [pair, Option.all_some, decide_eq_true_iff] at here

variable {p : Char → Bool}

/-- A run is cut off up to what is not in its class. -/
theorem span_append_stop (inside : ∀ c ∈ text, p c = true)
    (outside : ∀ c ∈ behind.head?, p c = false) : span p (text ++ behind) = (text, behind) := by
  unfold span
  rw [List.takeWhile_append_of_pos inside, List.dropWhile_append_of_pos inside]
  cases behind with
  | nil => simp
  | cons c behind => simp [outside c rfl]

theorem inside_span (p : Char → Bool) (cs : List Char) :
    ∀ c ∈ (span p cs).1, p c = true := List.all_eq_true.mp List.all_takeWhile

theorem outside_span (p : Char → Bool) (cs : List Char) :
    ∀ c ∈ (span p cs).2.head?, p c = false := by
  intro c first
  have stopped := List.head?_dropWhile_not p cs
  change (span p cs).2.head? = some c at first
  rw [span] at first
  rw [first] at stopped
  exact stopped

/-- A numeral is cut off up to what does not go on with it. -/
theorem spanNumber_append_stop {d : Decimal} (numeral : Decimal.Numeral digits d)
    (ends : Ends digits behind) : spanNumber (digits ++ behind) = (digits, behind) := by
  obtain ⟨c, more, starts, digit⟩ := numeral.starts
  have first : digits.head?.any Char.isDigit = true := by simp [starts, digit]
  have outside := ends.digits first
  unfold spanNumber
  cases numeral with
  | whole _ inside =>
      have noPoint : '.' ∉ digits := fun member => absurd (inside _ member) (by decide)
      rw [span_append_stop inside outside]
      dsimp only
      split
      · rename_i e rest
        rw [if_neg (by simp [ends.fraction first noPoint e rest rfl])]
      · rfl
  | @point whole fraction _ inside nonempty inside' =>
      obtain ⟨e, others, rfl⟩ := List.exists_cons_of_ne_nil nonempty
      rw [List.append_assoc, List.cons_append, span_append_stop inside (by simp)]
      have cut : span Char.isDigit (e :: others ++ behind) = (e :: others, behind) :=
        span_append_stop inside' outside
      rw [List.cons_append] at cut ⊢
      simp [inside' e (by simp), cut]

theorem numeral_spanNumber (digit : c.isDigit = true) (cs : List Char) :
    ∃ d, Decimal.Numeral (spanNumber (c :: cs)).1 d := by
  have nonempty := span_ne_nil digit cs
  have inside : ∀ d ∈ (span Char.isDigit (c :: cs)).1, d.isDigit = true := inside_span _ _
  unfold spanNumber
  generalize span Char.isDigit (c :: cs) = cut at nonempty inside ⊢
  obtain ⟨whole, rest⟩ := cut
  dsimp only at nonempty inside ⊢
  split
  · split
    · rename_i digit'
      exact ⟨_, .point nonempty inside (span_ne_nil digit' _) (inside_span _ _)⟩
    · exact ⟨_, .whole nonempty inside⟩
  · exact ⟨_, .whole nonempty inside⟩

namespace Ends

theorem of_letter {letters : List Char} (letter : c.isAlpha = true)
    (stops : ∀ d ∈ behind.head?, isWordChar d = false) : Ends (c :: letters) behind where
  word _ := stops
  digits digit := by simp [isDigit_of_isAlpha letter] at digit
  fraction digit := by simp [isDigit_of_isAlpha letter] at digit
  equals same := by
    cases same
    cases letter
  slash same := by
    cases same
    cases letter

theorem of_digit {others : List Char} (digit : c.isDigit = true)
    (stops : ∀ d ∈ behind.head?, d.isDigit = false)
    (noFraction : '.' ∉ c :: others → ∀ d rest, behind = '.' :: d :: rest → d.isDigit = false) :
    Ends (c :: others) behind where
  word letter := by simp [isAlpha_of_isDigit digit] at letter
  digits _ := stops
  fraction _ := noFraction
  equals same := by
    cases same
    cases digit
  slash same := by
    cases same
    cases digit

theorem of_symbol {others : List Char} (noLetter : c.isAlpha = false)
    (noDigit : c.isDigit = false) (equals : c :: others = ['='] → behind.head? ≠ some '=')
    (slash : c :: others = ['/'] → behind.head? ≠ some '/') : Ends (c :: others) behind where
  word letter := by simp [noLetter] at letter
  digits digit := by simp [noDigit] at digit
  fraction digit := by simp [noDigit] at digit
  equals := equals
  slash := slash

end Ends

theorem ends_spanNumber (digit : c.isDigit = true) (cs : List Char) :
    Ends (spanNumber (c :: cs)).1 (spanNumber (c :: cs)).2 := by
  have run : span Char.isDigit (c :: cs) =
      (c :: cs.takeWhile Char.isDigit, cs.dropWhile Char.isDigit) := by simp [span, digit]
  have outside := outside_span Char.isDigit (c :: cs)
  unfold spanNumber
  rw [run] at outside ⊢
  generalize cs.takeWhile Char.isDigit = more at outside ⊢
  generalize cs.dropWhile Char.isDigit = rest at outside ⊢
  dsimp only at outside ⊢
  split
  · split
    · refine .of_digit digit (outside_span _ _) fun noPoint => absurd ?_ noPoint
      exact List.mem_cons_of_mem _ (List.mem_append_right _ List.mem_cons_self)
    · rename_i noDigit
      refine .of_digit digit outside fun _ d rest same => ?_
      cases same
      simpa using noDigit
  · rename_i noFraction
    refine .of_digit digit outside fun _ d rest same => ?_
    exact absurd same (noFraction d rest)

/-- The text of a token is cut off where it ends. -/
theorem Matches.next? (found : Matches k text) (ends : Ends text behind) :
    next? (text ++ behind) = some (.token k, text, behind) := by
  cases found with
  | @word c letters letter inside =>
      have stops := ends.word (by simp [letter])
      have range := toNat_of_isAlpha letter
      have cut : span isWordChar (c :: letters ++ behind) = (c :: letters, behind) := by
        refine span_append_stop ?_ stops
        exact List.forall_mem_cons.mpr ⟨isWordChar_of_isAlpha letter, inside⟩
      rw [List.cons_append] at cut ⊢
      simp [Lexeme.next?, isBlank_of_isAlpha letter, ne_slash (c := c) (by omega), letter, cut]
  | numeral number =>
      have cut := spanNumber_append_stop number ends
      obtain ⟨c, more, rfl, digit⟩ := number.starts
      have range := toNat_of_isDigit digit
      rw [List.cons_append] at cut ⊢
      simp [Lexeme.next?, isBlank_of_isDigit digit, ne_slash (c := c) (by omega),
        isAlpha_of_isDigit digit, digit, cut]
  | @symbol c k symbol =>
      obtain ⟨blank, letter, digit, -⟩ := class_of_symbolKind? symbol
      cases behind with
      | nil => simp [Lexeme.next?, blank, letter, digit, operator?, symbol]
      | cons d rest =>
          have noComment : ¬ (c = '/' ∧ d = '/') := by
            rintro ⟨rfl, rfl⟩
            exact ends.slash rfl rfl
          have noPair : pairKind? c d = none := by
            unfold pairKind?
            rw [if_neg, if_neg, if_neg]
            · rintro ⟨rfl, rfl⟩
              cases symbol
            · rintro ⟨rfl, rfl⟩
              cases symbol
            · rintro ⟨rfl, rfl⟩
              exact ends.equals rfl rfl
          simp [Lexeme.next?, blank, letter, digit, operator?, symbol, noPair, noComment]
  | pair pair =>
      obtain ⟨blank, letter, digit, notSlash, -⟩ := class_of_pairKind? pair
      simp [Lexeme.next?, blank, letter, digit, notSlash, operator?, pair]

private theorem matches_operator (noComment : ¬ (c = '/' ∧ cs.head? = some '/'))
    (found : operator? (c :: cs) = some (k, text, rest)) : Matches k text ∧ Ends text rest := by
  cases cs with
  | nil =>
      obtain ⟨kind, symbol, same⟩ := Option.map_eq_some_iff.mp found
      cases same
      obtain ⟨-, noLetter, noDigit, -⟩ := class_of_symbolKind? symbol
      exact ⟨.symbol symbol, .of_symbol noLetter noDigit (by simp) (by simp)⟩
  | cons d others =>
      simp only [operator?] at found
      split at found
      · rename_i pair
        cases found
        obtain ⟨-, noLetter, noDigit, -⟩ := class_of_pairKind? pair
        exact ⟨.pair pair, .of_symbol noLetter noDigit (by simp) (by simp)⟩
      · rename_i noPair
        obtain ⟨kind, symbol, same⟩ := Option.map_eq_some_iff.mp found
        cases same
        obtain ⟨-, noLetter, noDigit, -⟩ := class_of_symbolKind? symbol
        refine ⟨.symbol symbol, .of_symbol noLetter noDigit ?_ ?_⟩
        · rintro ⟨⟩ ⟨⟩
          cases noPair
        · rintro ⟨⟩ another
          exact noComment ⟨rfl, another⟩

theorem matches_of_next? (next : next? cs = some (.token k, text, rest)) :
    Matches k text ∧ Ends text rest := by
  cases cs with
  | nil => cases next
  | cons c tail =>
      simp only [next?] at next
      split at next
      · cases next
      split at next
      · cases next
      rename_i noComment
      split at next
      · rename_i letter
        simp only [Option.some.injEq, LexemeKind.token.injEq, Prod.ext_iff] at next
        obtain ⟨rfl, rfl, rfl⟩ := next
        have stops := outside_span isWordChar (c :: tail)
        have word : (span isWordChar (c :: tail)).1 = c :: tail.takeWhile isWordChar := by
          simp [span, isWordChar_of_isAlpha letter]
        rw [word]
        exact ⟨.word letter (List.all_eq_true.mp List.all_takeWhile), .of_letter letter stops⟩
      split at next
      · rename_i digit
        simp only [Option.some.injEq, LexemeKind.token.injEq, Prod.ext_iff] at next
        obtain ⟨rfl, rfl, rfl⟩ := next
        obtain ⟨d, numeral⟩ := numeral_spanNumber digit tail
        exact ⟨.numeral numeral, ends_spanNumber digit tail⟩
      · obtain ⟨found, operator, same⟩ := Option.map_eq_some_iff.mp next
        cases same
        exact matches_operator noComment operator

/-- A text starts with a token exactly if it is the text of that token and one that does
not go on with it. -/
theorem next?_eq_token_iff :
    next? cs = some (.token k, text, rest) ↔
      cs = text ++ rest ∧ Matches k text ∧ Ends text rest := by
  constructor
  · intro next
    exact ⟨(next?_append next).1.symm, matches_of_next? next⟩
  · rintro ⟨rfl, found, ends⟩
    exact found.next? ends

theorem Skips.next? (skips : Skips text behind) :
    next? (text ++ behind) = some (.gap, text, behind) := by
  cases skips with
  | blanks nonempty inside outside =>
      obtain ⟨c, more, rfl⟩ := List.exists_cons_of_ne_nil nonempty
      have cut := span_append_stop inside outside
      rw [List.cons_append] at cut ⊢
      simp [Lexeme.next?, inside c (by simp), cut]
  | @comment body behind inside outside =>
      have notBlank : Text.isBlank '/' = false := by decide
      have cut : span (· != '\n') ('/' :: '/' :: body ++ behind) =
          ('/' :: '/' :: body, behind) := by
        refine span_append_stop ?_ fun c first => by simp [outside c first]
        intro c member
        have notNewline : c ≠ '\n' := by
          rintro rfl
          simp [inside] at member
        simpa using notNewline
      rw [List.cons_append, List.cons_append] at cut ⊢
      simp [Lexeme.next?, notBlank, cut]

theorem skips_of_next? (next : next? cs = some (.gap, text, rest)) : Skips text rest := by
  cases cs with
  | nil => cases next
  | cons c tail =>
      simp only [next?] at next
      split at next
      · rename_i blank
        simp only [Option.some.injEq, true_and, Prod.ext_iff] at next
        obtain ⟨rfl, rfl⟩ := next
        exact .blanks (span_ne_nil blank tail) (inside_span _ _) (outside_span _ _)
      split at next
      · rename_i slashes
        obtain ⟨rfl, another⟩ := slashes
        obtain ⟨rest, rfl⟩ := List.head?_eq_some_iff.mp another
        simp only [Option.some.injEq, true_and, Prod.ext_iff] at next
        obtain ⟨rfl, rfl⟩ := next
        have run : (span (· != '\n') ('/' :: '/' :: rest)).1 =
            '/' :: '/' :: rest.takeWhile (· != '\n') := by simp [span]
        have outside := outside_span (· != '\n') ('/' :: '/' :: rest)
        rw [run]
        refine .comment (fun member => ?_) fun c first => by simpa using outside c first
        simpa using List.all_eq_true.mp List.all_takeWhile _ member
      split at next
      · cases next
      split at next
      · cases next
      · obtain ⟨found, operator, same⟩ := Option.map_eq_some_iff.mp next
        cases same

theorem next?_eq_gap_iff :
    next? cs = some (.gap, text, rest) ↔ cs = text ++ rest ∧ Skips text rest := by
  constructor
  · intro next
    exact ⟨(next?_append next).1.symm, skips_of_next? next⟩
  · rintro ⟨rfl, skips⟩
    exact skips.next?

theorem startsNothing_of_next? (stuck : next? cs = none) : StartsNothing cs := by
  cases cs with
  | nil =>
      refine ⟨?_, by simp, by simp⟩
      intro text behind k empty found
      obtain ⟨rfl, -⟩ := List.append_eq_nil_iff.mp empty.symm
      cases found with
      | numeral number => obtain ⟨c, more, absurd, -⟩ := number.starts; cases absurd
  | cons c tail =>
      simp only [next?] at stuck
      split at stuck
      · cases stuck
      rename_i noBlank
      split at stuck
      · cases stuck
      rename_i noComment
      split at stuck
      · cases stuck
      rename_i noLetter
      split at stuck
      · cases stuck
      rename_i noDigit
      have noOperator : operator? (c :: tail) = none := Option.map_eq_none_iff.mp stuck
      refine ⟨?_, by simpa using noBlank, ?_⟩
      · intro text behind k whole found
        cases found with
        | word letter =>
            cases whole
            exact noLetter letter
        | numeral number =>
            obtain ⟨d, more, rfl, digit⟩ := number.starts
            cases whole
            exact noDigit digit
        | symbol symbol =>
            obtain ⟨rfl, rfl⟩ := List.cons.inj whole
            cases tail with
            | nil => simp [operator?, symbol] at noOperator
            | cons d rest =>
                simp only [operator?] at noOperator
                split at noOperator
                · cases noOperator
                · simp [symbol] at noOperator
        | pair pair =>
            cases whole
            simp [operator?, pair] at noOperator
      · rintro behind ⟨⟩
        exact noComment ⟨rfl, rfl⟩

theorem span_append_inside (inside : ∀ c ∈ text, p c = true) (cs : List Char) :
    (span p (text ++ cs)).1 = text ++ (span p cs).1 := List.takeWhile_append_of_pos inside

private theorem length_le_spanNumber {d : Decimal} (numeral : Decimal.Numeral digits d)
    (cs : List Char) : digits.length ≤ (spanNumber (digits ++ cs)).1.length := by
  unfold spanNumber
  cases numeral with
  | whole _ inside =>
      have run := span_append_inside inside cs
      generalize span Char.isDigit (digits ++ cs) = cut at run ⊢
      obtain ⟨whole, rest⟩ := cut
      obtain rfl : whole = _ := run
      dsimp only
      split
      · split <;> simp +arith
      · simp
  | @point whole fraction _ inside nonempty inside' =>
      obtain ⟨e, others, rfl⟩ := List.exists_cons_of_ne_nil nonempty
      rw [List.append_assoc, List.cons_append, span_append_stop inside (by simp)]
      have run := span_append_inside inside' cs
      rw [List.cons_append] at run ⊢
      simp [inside' e (by simp), run]

/-- No text of a token that stands at the start of a text is longer than its first
lexeme. -/
theorem Matches.length_le {kind : LexemeKind} (found : Matches k digits)
    (next : Lexeme.next? (digits ++ cs) = some (kind, text, rest)) :
    digits.length ≤ text.length := by
  cases found with
  | @word c letters letter inside =>
      have range := toNat_of_isAlpha letter
      have run := span_append_inside
        (List.forall_mem_cons.mpr ⟨isWordChar_of_isAlpha letter, inside⟩) cs
      rw [List.cons_append] at next run
      simp only [Lexeme.next?, isBlank_of_isAlpha letter, ne_slash (c := c) (by omega), letter,
        Bool.false_eq_true, if_false, false_and, if_true, Option.some.injEq, Prod.ext_iff] at next
      rw [← next.2.1, run]
      simp
  | numeral number =>
      have longer := length_le_spanNumber number cs
      obtain ⟨c, more, rfl, digit⟩ := number.starts
      have range := toNat_of_isDigit digit
      rw [List.cons_append] at next longer
      simp only [Lexeme.next?, isBlank_of_isDigit digit, ne_slash (c := c) (by omega),
        isAlpha_of_isDigit digit, digit, Bool.false_eq_true, if_false, false_and, if_true,
        Option.some.injEq, Prod.ext_iff] at next
      rwa [← next.2.1]
  | symbol symbol => exact List.length_pos_iff.mpr (next?_append next).2
  | pair pair =>
      obtain ⟨blank, letter, digit, notSlash, -⟩ := class_of_pairKind? pair
      simp only [Lexeme.next?, List.cons_append, List.nil_append, blank, letter, digit, notSlash,
        operator?, pair, Bool.false_eq_true, if_false, false_and, Option.map_some,
        Option.some.injEq, Prod.ext_iff] at next
      simp [← next.2.1]

/-- A lexeme stays as it is if less stands behind it. -/
theorem Ends.shorter (ends : Ends text behind) (less : rest <+: behind) : Ends text rest := by
  obtain ⟨more, rfl⟩ := less
  have first {c : Char} (here : rest.head? = some c) : (rest ++ more).head? = some c := by
    rw [List.head?_append, here, Option.some_or]
  refine ⟨fun letter c here => ends.word letter c (first here),
    fun digit c here => ends.digits digit c (first here), ?_,
    fun equals here => ends.equals equals (first here),
    fun slash here => ends.slash slash (first here)⟩
  rintro digit noPoint c others rfl
  exact ends.fraction digit noPoint c (others ++ more) rfl

theorem Skips.shorter (skips : Skips text behind) (less : rest <+: behind) :
    Skips text rest := by
  obtain ⟨more, rfl⟩ := less
  have first {c : Char} (here : rest.head? = some c) : (rest ++ more).head? = some c := by
    rw [List.head?_append, here, Option.some_or]
  cases skips with
  | blanks nonempty inside outside =>
      exact .blanks nonempty inside fun c here => outside c (first here)
  | comment inside outside => exact .comment inside fun c here => outside c (first here)

/-- A text with which no name and no numeral runs on. -/
def Parted (cs : List Char) : Prop := ∀ c ∈ cs.head?, isWordChar c = false ∧ c ≠ '.'

theorem Parted.isDigit (parted : Parted cs) (first : d ∈ cs.head?) : d.isDigit = false := by
  have outside := (parted d first).1
  simp only [isWordChar, Char.isAlphanum, Bool.or_eq_false_iff] at outside
  exact outside.1.2

theorem Parted.ends (parted : Parted behind) (equals : text = ['='] → behind.head? ≠ some '=')
    (slash : text = ['/'] → behind.head? ≠ some '/') : Ends text behind where
  word _ c first := (parted c first).1
  digits _ c first := parted.isDigit first
  fraction _ _ c rest same := by
    have point := (parted '.' (by rw [same]; rfl)).2
    exact absurd rfl point
  equals := equals
  slash := slash

/-- Every token ends before a blank. -/
theorem Ends.of_blank (blank : Text.isBlank c = true) : Ends text (c :: rest) := by
  have other {d : Char} (low : 33 ≤ d.toNat) (high : d.toNat ≤ 126) : c ≠ d := by
    rintro rfl
    rw [isBlank_eq_false low high] at blank
    cases blank
  have notWord : isWordChar c = false := by
    by_contra word
    simp only [Bool.not_eq_false, isWordChar, Char.isAlphanum, Bool.or_eq_true] at word
    rcases word with (letter | digit) | underscore
    · rw [isBlank_of_isAlpha letter] at blank
      cases blank
    · rw [isBlank_of_isDigit digit] at blank
      cases blank
    · exact other (d := '_') (by decide) (by decide) (by simpa using underscore)
  refine Parted.ends ?_ ?_ ?_
  · rintro d ⟨⟩
    exact ⟨notWord, other (by decide) (by decide)⟩
  · rintro - same
    exact other (d := '=') (by decide) (by decide) (Option.some.inj same)
  · rintro - same
    exact other (d := '/') (by decide) (by decide) (Option.some.inj same)

end Scriptlet.Lexeme
