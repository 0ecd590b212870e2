import Scriptlet.Proofs.Program.Faults
import Scriptlet.Proofs.Text.Places
import Scriptlet.Proofs.Token.Lossless
import Scriptlet.Report

/-!
# Where the caret stands

A syntax error stands before a character that is no blank, or at the end of the source. Its
report shows the line of this character, or the last line, and a caret. There are as many
dashes before the caret as bytes stand before the place in what is shown. So the caret is
under the place exactly if all characters before it take one byte: a blank or a comment
with a longer character moves it to the right.
-/

namespace Scriptlet

namespace Lexeme

variable {file : String} {before cs text read rest : List Char} {tokens : List Token} {k : TokenKind}

/-- The text of a token starts with a character that is no blank. -/
theorem Matches.exists_head (found : Matches k text) :
    ∃ c rest, text = c :: rest ∧ Text.isBlank c = false := by
  cases found with
  | word letter _ => exact ⟨_, _, rfl, isBlank_of_isAlpha letter⟩
  | numeral number =>
      obtain ⟨c, rest, same, digit⟩ := number.starts
      exact ⟨c, rest, same, isBlank_of_isDigit digit⟩
  | symbol symbol => exact ⟨_, _, rfl, (class_of_symbolKind? symbol).1⟩
  | pair pair => exact ⟨_, _, rfl, (class_of_pairKind? pair).1⟩

/-- A token starts before a character that is no blank. -/
theorem Laid.exists_start (laid : Laid file before cs tokens read rest) {t : Token}
    (member : t ∈ tokens) :
    ∃ front c back, before ++ cs = front ++ c :: back ∧ Text.isBlank c = false ∧
      t.span.start = ⟨UInt32.ofNat (Text.byteLength front), file⟩ := by
  induction laid with
  | stop => cases member
  | @token before gap text behind read rest kind tokens _ found _ _ ih =>
      rcases List.mem_cons.mp member with rfl | later
      · obtain ⟨c, others, rfl, dark⟩ := found.exists_head
        exact ⟨before ++ gap, c, others ++ behind, by simp, dark, rfl⟩
      · obtain ⟨front, c, back, whole, dark, start⟩ := ih later
        exact ⟨front, c, back, by simpa using whole, dark, start⟩

end Lexeme

/-- A stream that ends with an end of input has no further one. -/
theorem Token.closed_append_eof (tokens : List Token) (position : Position) :
    closed (tokens ++ [eofAt position]) = tokens ++ [eofAt position] := by
  simp [closed, eofAt]

namespace Program

variable {file source : String} {tokens : List Token} {e : SyntaxError}

/-- A syntax error is at the start of a token. -/
theorem exists_error_token (failed : ofTokens tokens = .error e) :
    ∃ t ∈ Token.closed tokens, e.position = t.span.start := by
  rw [ofTokens_eq] at failed
  rcases ran : Grammar.full.stmts false #[] (.ofTokens tokens) with ⟨e' | body, d⟩
  · rw [ran] at failed
    cases failed
    obtain ⟨seg, passes, -⟩ := Grammar.viable_of_stmts ran
    obtain ⟨rest, stream⟩ := passes.exists_stream_eq
    rw [Cursor.ahead_ofTokens] at stream
    exact ⟨d.current, by simp [stream], Grammar.position_of_stmts ran⟩
  · rw [ran] at failed
    cases failed

theorem ofSource_eq_ofTokens (cut : Token.ofSource file source = .ok tokens) :
    ofSource file source = ofTokens tokens := by
  rw [ofSource, cut]
  rfl

/-- A source that is no program has its error before a character that is no blank, or at
its end. -/
theorem exists_error_place (short : source.utf8ByteSize < 2 ^ 32)
    (failed : ofSource file source = .error e) :
    ∃ before behind, source.toList = before ++ behind ∧
      (∀ c ∈ behind.head?, Text.isBlank c = false) ∧
      e.position.offset.toNat = Text.byteLength before := by
  obtain ⟨tokens, read, rest, laid, stuck⟩ := Lexeme.exists_laid file [] source.toList
  have whole : source.toList = read ++ rest := laid.whole.symm
  have cut := Token.ofSource_of_laid laid stuck
  cases rest with
  | cons c rest =>
      have place : e.position = ⟨UInt32.ofNat (Text.byteLength read), file⟩ := by
        rw [ofSource, cut] at failed
        cases failed
        rfl
      refine ⟨read, c :: rest, whole, (Lexeme.startsNothing_of_next? stuck).blank, ?_⟩
      rw [place]
      exact Token.toNat_offset short whole
  | nil =>
      rw [ofSource_eq_ofTokens cut] at failed
      obtain ⟨t, member, place⟩ := exists_error_token failed
      rw [Token.closed_append_eof] at member
      rcases List.mem_append.mp member with inside | last
      · obtain ⟨front, c, back, split, dark, start⟩ := laid.exists_start inside
        refine ⟨front, c :: back, split, by simpa using dark, ?_⟩
        rw [place, start]
        exact Token.toNat_offset short split
      · refine ⟨read, [], whole, by simp, ?_⟩
        rw [place, List.mem_singleton.mp last]
        exact Token.toNat_offset short whole

end Program

namespace Report

open Text (LineAt LastLine byteLength trimEnd)

/-- The rule between the numbers of the lines and their text. -/
def margin (number : Nat) : String :=
  String.ofList (List.replicate ((Nat.repr number).length + 1) ' ') ++ "|"

/-- A line with its number, and a caret under it behind a number of dashes. -/
def marked (number : Nat) (shown : List Char) (dashes : Nat) : String :=
  margin number ++ "\n" ++ Nat.repr number ++ " | " ++ String.ofList shown ++ "\n" ++
    margin number ++ " " ++ String.ofList (List.replicate dashes '-') ++ "^\n"

/-- The report of a syntax error shows a line and a caret in this way. -/
def Shows (e : SyntaxError) (source file : String) (number : Nat) (shown : List Char)
    (dashes : Nat) : Prop :=
  render (.syntactic e) source file = heading (.syntactic e) file ++ marked number shown dashes

/-- A character of a text in its line: the indentation, what stands between it and the
character, and the rest of the line. -/
structure Pointed (cs : List Char) (offset : Nat) (above indent lead : List Char) (c : Char)
    (tail below : List Char) : Prop where
  line : LineAt cs above (indent ++ (lead ++ c :: tail)) below
  offset : offset = byteLength (above ++ (indent ++ lead))
  blanks : ∀ x ∈ indent, isIndent x = true
  starts : ∀ x ∈ (lead ++ [c]).head?, isIndent x = false
  dark : Text.isBlank c = false

variable {cs above indent lead tail below line shown : List Char} {c : Char} {offset : Nat}
variable {e : SyntaxError} {source file : String} {number : Nat}

theorem isBlank_of_isIndent {x : Char} (blank : isIndent x = true) : Text.isBlank x = true := by
  simp only [isIndent, Bool.or_eq_true, beq_iff_eq] at blank
  rcases blank with rfl | rfl <;> rfl

theorem byteLength_indent (blanks : ∀ x ∈ indent, isIndent x = true) :
    byteLength indent = indent.length := by
  rw [Text.byteLength_eq_length_iff]
  intro x member
  have blank := blanks x member
  simp only [isIndent, Bool.or_eq_true, beq_iff_eq] at blank
  rcases blank with rfl | rfl <;> rfl

theorem marked_inj {m n : Nat} (same : marked number shown m = marked number shown n) : m = n := by
  have lengths := congrArg String.length same
  simp only [marked, String.length_append, String.length_ofList, List.length_replicate] at lengths
  omega

/-- A report has one number of dashes. -/
theorem Shows.dashes_eq {m n : Nat} (shows : Shows e source file number shown m)
    (other : Shows e source file number shown n) : m = n :=
  marked_inj ((String.append_right_inj _).mp (shows.symm.trans other))

/-- Dashes that count bytes are as many as characters exactly if each takes one byte. -/
theorem Shows.length_iff (shows : Shows e source file number shown (byteLength cs)) :
    Shows e source file number shown cs.length ↔ ∀ x ∈ cs, x.utf8Size = 1 := by
  rw [← Text.byteLength_eq_length_iff]
  constructor
  · exact shows.dashes_eq
  · intro same
    rwa [same] at shows

theorem excerpt_eq_marked (place : Text.Place) :
    excerpt place = marked place.number (trimEnd (place.text.dropWhile isIndent))
      (place.column - (place.text.takeWhile isIndent).length) := rfl

theorem render_eq (e : SyntaxError) (source file : String) :
    render (.syntactic e) source file = heading (.syntactic e) file ++
      excerpt ((Text.placeAt source.toList e.position.offset.toNat).getD
        (Text.endPlace source.toList)) := rfl

/-- The report shows the line of the character, with a dash for each byte before it. -/
theorem Pointed.shows (pointed : Pointed source.toList e.position.offset.toNat above indent lead c
    tail below) (file : String) :
    Shows e source file (1 + (above ++ (indent ++ lead)).count '\n') (lead ++ c :: trimEnd tail)
      (byteLength lead) := by
  obtain ⟨stands, offset, blanks, starts, dark⟩ := pointed
  have number : (above ++ (indent ++ lead)).count '\n' = above.count '\n' := by
    have single : '\n' ∉ indent ++ lead := by
      intro member
      apply stands.single
      rw [← List.append_assoc]
      exact List.mem_append_left _ member
    rw [List.count_append, List.count_eq_zero.mpr single, Nat.add_zero]
  have newline : ∀ x ∈ below.take 1, Text.isBlank x = true := by
    intro x member
    cases below with
    | nil => cases member
    | cons d below =>
        rw [List.mem_singleton.mp member, stands.ended d rfl]
        rfl
  rw [← List.append_assoc] at stands
  have place := stands.placeAt_eq (List.cons_ne_nil c tail)
  rw [← offset] at place
  -- The indentation ends where the text that is shown begins.
  have cut : Lexeme.span isIndent (indent ++ (lead ++ c :: (tail ++ below.take 1))) =
      (indent, lead ++ c :: (tail ++ below.take 1)) := by
    refine Lexeme.span_append_stop blanks fun x first => starts x ?_
    cases lead with
    | nil => exact first
    | cons d lead => exact first
  obtain ⟨hidden, rest⟩ := Prod.mk.inj cut
  have columns : byteLength (indent ++ lead) - indent.length = byteLength lead := by
    rw [Text.byteLength_append, byteLength_indent blanks]
    omega
  have line : indent ++ lead ++ c :: tail ++ below.take 1 =
      indent ++ (lead ++ c :: (tail ++ below.take 1)) := by simp
  rw [Shows, render_eq, place, Option.getD_some, excerpt_eq_marked, line, hidden, rest,
    Text.trimEnd_append_cons dark, Text.trimEnd_append newline, columns, number]

/-- At the end of the source the report shows the last line, with a dash for each byte of
it. -/
theorem shows_lastLine (last : LastLine source.toList above line)
    (atEnd : e.position.offset.toNat = source.utf8ByteSize) (file : String) :
    Shows e source file (1 + above.count '\n') (trimEnd (line.dropWhile isIndent))
      (byteLength (line.dropWhile isIndent)) := by
  have beyond := Text.placeAt_end source.toList
  rw [Text.byteLength_toList, ← atEnd] at beyond
  have blanks : ∀ x ∈ line.takeWhile isIndent, isIndent x = true :=
    List.all_eq_true.mp List.all_takeWhile
  have columns : byteLength line - (line.takeWhile isIndent).length =
      byteLength (line.dropWhile isIndent) := by
    have whole := congrArg byteLength (List.takeWhile_append_dropWhile (p := isIndent) (l := line))
    rw [Text.byteLength_append, byteLength_indent blanks] at whole
    omega
  rw [Shows, render_eq, beyond, Option.getD_none, last.endPlace_eq, excerpt_eq_marked, columns]

/-- A character that is no blank stands in its line behind an indentation. -/
theorem exists_pointed {before rest : List Char} (dark : Text.isBlank c = false) :
    ∃ above indent lead tail below, before = above ++ (indent ++ lead) ∧
      Pointed (before ++ c :: rest) (byteLength before) above indent lead c tail below := by
  obtain ⟨above, left, right, below, rfl, split, stands⟩ := Text.exists_lineAt before (c :: rest)
  -- The line goes on to the character, as this is no newline.
  obtain ⟨tail, rfl⟩ : ∃ tail, right = c :: tail := by
    cases right with
    | nil =>
        have newline := stands.ended c (by rw [← List.nil_append below, ← split]; rfl)
        rw [newline] at dark
        cases dark
    | cons d tail => exact ⟨tail, by rw [(List.cons.inj split).1]⟩
  have cut : left.takeWhile isIndent ++ left.dropWhile isIndent = left :=
    List.takeWhile_append_dropWhile
  refine ⟨above, left.takeWhile isIndent, left.dropWhile isIndent, tail, below, ?_, ?_, ?_, ?_, ?_,
    dark⟩
  · rw [cut]
  · rwa [← List.append_assoc, cut]
  · rw [cut]
  · exact List.all_eq_true.mp List.all_takeWhile
  · intro x first
    cases kept : left.dropWhile isIndent with
    | nil =>
        rw [kept] at first
        obtain rfl : c = x := Option.some.inj first
        by_contra blank
        rw [isBlank_of_isIndent (eq_true_of_ne_false blank)] at dark
        cases dark
    | cons d lead =>
        rw [kept] at first
        have stopped := List.head?_dropWhile_not isIndent left
        rw [kept] at stopped
        obtain rfl : d = x := Option.some.inj first
        simpa using stopped

/-- The report of a syntax error shows the line of the offending character, and a caret
behind as many dashes as bytes stand before the character. At the end of the source it shows
the last line, and the dashes count the bytes of this line. The dashes count characters
exactly if each of these takes one byte. -/
theorem caret_iff_singleBytes (short : source.utf8ByteSize < 2 ^ 32) {name : String}
    (failed : Program.ofSource name source = .error e) (file : String) :
    (e.position.offset.toNat < source.utf8ByteSize ∧
      ∃ above indent lead c tail below,
        Pointed source.toList e.position.offset.toNat above indent lead c tail below ∧
        Shows e source file (1 + (above ++ (indent ++ lead)).count '\n') (lead ++ c :: trimEnd tail)
          (byteLength lead) ∧
        (Shows e source file (1 + (above ++ (indent ++ lead)).count '\n')
          (lead ++ c :: trimEnd tail) lead.length ↔ ∀ x ∈ lead, x.utf8Size = 1)) ∨
    (e.position.offset.toNat = source.utf8ByteSize ∧
      ∃ above line, LastLine source.toList above line ∧
        Shows e source file (1 + above.count '\n') (trimEnd (line.dropWhile isIndent))
          (byteLength (line.dropWhile isIndent)) ∧
        (Shows e source file (1 + above.count '\n') (trimEnd (line.dropWhile isIndent))
          (line.dropWhile isIndent).length ↔ ∀ x ∈ line.dropWhile isIndent, x.utf8Size = 1)) := by
  obtain ⟨before, behind, whole, dark, place⟩ := Program.exists_error_place short failed
  have size : source.utf8ByteSize = byteLength before + byteLength behind := by
    rw [← Text.byteLength_toList, whole, Text.byteLength_append]
  cases behind with
  | cons c rest =>
      apply Or.inl
      constructor
      · have positive := c.utf8Size_pos
        rw [place, size, Text.byteLength_cons]
        omega
      obtain ⟨above, indent, lead, tail, below, -, pointed⟩ := exists_pointed (dark c rfl)
      rw [← whole, ← place] at pointed
      have shows := pointed.shows file
      exact ⟨above, indent, lead, c, tail, below, pointed, shows, shows.length_iff⟩
  | nil =>
      apply Or.inr
      have atEnd : e.position.offset.toNat = source.utf8ByteSize := by
        rw [place, size, Text.byteLength_nil, Nat.add_zero]
      obtain ⟨above, line, last⟩ := Text.exists_lastLine source.toList
      have shows := shows_lastLine last atEnd file
      exact ⟨atEnd, above, line, last, shows, shows.length_iff⟩

/-- A character that starts no token, in an indented line. -/
def strayDollar : String := "declare x = 1;\n  print x $;\n"

theorem strayDollar_caret :
    Program.ofSource "main" strayDollar = .error ⟨.unrecognised "$", ⟨25, "main"⟩⟩ ∧
      ∃ above indent lead c tail below,
        Pointed strayDollar.toList 25 above indent lead c tail below ∧
        Shows ⟨.unrecognised "$", ⟨25, "main"⟩⟩ strayDollar "main"
          (1 + (above ++ (indent ++ lead)).count '\n') (lead ++ c :: trimEnd tail) lead.length := by
  have failed : Program.ofSource "main" strayDollar = .error ⟨.unrecognised "$", ⟨25, "main"⟩⟩ := by
    with_unfolding_all rfl
  have size : strayDollar.utf8ByteSize = 28 := by rfl
  refine ⟨failed, ?_⟩
  rcases caret_iff_singleBytes (by rw [size]; decide) failed "main" with inside | ⟨atEnd, -⟩
  · obtain ⟨-, above, indent, lead, c, tail, below, pointed, -, counts⟩ := inside
    refine ⟨above, indent, lead, c, tail, below, pointed, counts.mpr ?_⟩
    have narrow : strayDollar.toList.all (·.utf8Size == 1) = true := by decide
    intro x member
    have inside : x ∈ strayDollar.toList := by
      rw [pointed.line.whole]
      simp [member]
    exact beq_iff_eq.mp (List.all_eq_true.mp narrow x inside)
  · rw [size] at atEnd
    cases atEnd

/-- A blank of two bytes before a character that starts no token. -/
def wideBlank : String := "\u00a0$"

theorem wideBlank_pointed : Pointed wideBlank.toList 2 [] [] ['\u00a0'] '$' [] [] :=
  ⟨⟨by rfl, by simp, by decide, by simp⟩, by rfl, by simp, by simp [isIndent], by rfl⟩

/-- A statement that is not closed, and behind it a comment with a character of two bytes. -/
def wideComment : String := "print 1 // é"

theorem wideComment_lastLine : LastLine wideComment.toList [] wideComment.toList := by
  have chars : wideComment.toList =
      ['p', 'r', 'i', 'n', 't', ' ', '1', ' ', '/', '/', ' ', 'é'] := by rfl
  show LastLine ([] ++ wideComment.toList) [] wideComment.toList
  apply LastLine.unended
  · simp
  · rw [chars]
    decide
  · simp [chars]

/-- Both carets stand one too far to the right. -/
theorem caret_misplaced :
    (Program.ofSource "main" wideBlank = .error ⟨.unrecognised "$", ⟨2, "main"⟩⟩ ∧
      Pointed wideBlank.toList 2 [] [] ['\u00a0'] '$' [] [] ∧
      ¬ Shows ⟨.unrecognised "$", ⟨2, "main"⟩⟩ wideBlank "main" 1 ['\u00a0', '$'] 1) ∧
    (Program.ofSource "main" wideComment = .error ⟨.unexpected "EOF", ⟨13, "main"⟩⟩ ∧
      LastLine wideComment.toList [] wideComment.toList ∧
      ¬ Shows ⟨.unexpected "EOF", ⟨13, "main"⟩⟩ wideComment "main" 1 wideComment.toList 12) := by
  refine ⟨⟨?_, wideBlank_pointed, ?_⟩, ?_, wideComment_lastLine, ?_⟩
  · with_unfolding_all rfl
  · intro other
    have shows := wideBlank_pointed.shows (e := ⟨.unrecognised "$", ⟨2, "main"⟩⟩) "main"
    cases shows.dashes_eq other
  · with_unfolding_all rfl
  · intro other
    have shows := shows_lastLine (e := ⟨.unexpected "EOF", ⟨13, "main"⟩⟩) wideComment_lastLine
      (by rfl) "main"
    have shown : trimEnd (wideComment.toList.dropWhile isIndent) = wideComment.toList := by rfl
    have width : byteLength (wideComment.toList.dropWhile isIndent) = 13 := by rfl
    rw [shown, width] at shows
    cases shows.dashes_eq other

end Report
end Scriptlet
