import Mathlib.Data.String.Basic
import Scriptlet.Proofs.Token.Spelling

/-!
# Nothing is lost between tokens

A source up to the place where its cutting stops is the texts of its tokens with gaps
between them. Each token is the slice of the source at its span and as long as it can
be, each gap is blanks and comments, and the cutting stops only at the end of the source
or before a character with which neither begins. `Laid` says this over the characters of
a source, along the way the source is cut; `Covers` says it in byte offsets.
-/

namespace Scriptlet

namespace Text

/-- The characters of a text between two byte offsets. -/
def slice (s : String) (start stop : Nat) : String := String.Pos.Raw.extract s ⟨start⟩ ⟨stop⟩

/-- A byte offset between two characters of a text, or at one of its ends. -/
def IsBoundary (s : String) (offset : Nat) : Prop := String.Pos.Raw.IsValid s ⟨offset⟩

variable {s : String} {before text behind : List Char}

theorem utf8Len_eq_byteLength (cs : List Char) : String.utf8Len cs = byteLength cs := by
  rw [byteLength_eq_utf8ByteSize, String.utf8ByteSize_ofList]

theorem slice_eq (whole : s.toList = before ++ (text ++ behind)) :
    slice s (byteLength before) (byteLength (before ++ text)) = String.ofList text := by
  have found := String.extract_of_valid before text behind
  rw [List.append_assoc, ← whole, String.ofList_toList] at found
  rw [byteLength_append, ← utf8Len_eq_byteLength, ← utf8Len_eq_byteLength]
  exact found

theorem slice_to_end (whole : s.toList = before ++ behind) :
    slice s (byteLength before) s.utf8ByteSize = String.ofList behind := by
  rw [← byteLength_toList, whole]
  exact slice_eq (by rw [List.append_nil, whole])

theorem isBoundary_of_append (whole : s.toList = before ++ behind) :
    IsBoundary s (byteLength before) := by
  refine String.Pos.Raw.isValid_iff_exists_append.mpr
    ⟨String.ofList before, String.ofList behind, ?_, ?_⟩
  · rw [← String.ofList_append, ← whole, String.ofList_toList]
  · rw [byteLength_eq_utf8ByteSize]
    rfl

theorem byteLength_le (whole : s.toList = before ++ behind) :
    byteLength before ≤ s.utf8ByteSize := by
  rw [← byteLength_toList, whole, byteLength_append]
  exact Nat.le_add_right _ _

theorem byteLength_pos (nonempty : text ≠ []) : 0 < byteLength text := by
  obtain ⟨c, rest, rfl⟩ := List.exists_cons_of_ne_nil nonempty
  have := c.utf8Size_pos
  rw [byteLength_cons]
  omega

end Text

namespace Lexeme

/-- Blanks and comments one after the other, in front of a text. -/
inductive Gap : List Char → List Char → Prop
  | nil {behind : List Char} : Gap [] behind
  | cons {text more behind : List Char} :
      Skips text (more ++ behind) → Gap more behind → Gap (text ++ more) behind

/-- The token of a text that stands behind other characters of a source. -/
def placed (file : String) (kind : TokenKind) (before text : List Char) : Token :=
  ⟨kind, String.ofList text, ⟨⟨UInt32.ofNat (Text.byteLength before), file⟩,
    ⟨UInt32.ofNat (Text.byteLength (before ++ text)), file⟩⟩⟩

/-- Behind the characters `before` a source goes on with the tokens, and gaps between
them, up to where the characters `read` are read and `rest` is left. -/
inductive Laid (file : String) :
    (before cs : List Char) → List Token → (read rest : List Char) → Prop
  | stop {before gap rest : List Char} :
      Gap gap rest → Laid file before (gap ++ rest) [] (before ++ gap) rest
  | token {before gap text behind read rest : List Char} {kind : TokenKind}
      {tokens : List Token} :
      Gap gap (text ++ behind) → Matches kind text → Ends text behind →
      Laid file (before ++ gap ++ text) behind tokens read rest →
      Laid file before (gap ++ (text ++ behind)) (placed file kind (before ++ gap) text :: tokens)
        read rest

variable {file : String} {before cs text behind read rest gap : List Char} {tokens : List Token}

theorem Gap.shorter (gapped : Gap gap behind) (less : rest <+: behind) : Gap gap rest := by
  induction gapped with
  | nil => exact .nil
  | cons skips _ ih =>
      exact .cons (skips.shorter ((List.prefix_append_right_inj _).mpr less)) (ih less)

theorem Laid.skip (skips : Skips text cs) (laid : Laid file (before ++ text) cs tokens read rest) :
    Laid file before (text ++ cs) tokens read rest := by
  cases laid with
  | stop gapped =>
      have whole : Laid file before _ [] _ _ := .stop (.cons skips gapped)
      simpa only [List.append_assoc] using whole
  | token gapped found ends others =>
      have whole : Laid file before _ _ read rest :=
        .token (.cons skips gapped) found ends (by simpa only [List.append_assoc] using others)
      simpa only [List.append_assoc] using whole

/-- Every text is laid out up to a place where no lexeme begins. -/
theorem exists_laid (file : String) (before cs : List Char) :
    ∃ tokens read rest, Laid file before cs tokens read rest ∧ next? rest = none := by
  induction n : cs.length using Nat.strongRecOn generalizing before cs with
  | ind n ih =>
  cases next : next? cs with
  | none => exact ⟨[], before ++ [], cs, .stop .nil, next⟩
  | some found =>
      obtain ⟨kind, text, behind⟩ := found
      obtain ⟨tokens, read, rest, laid, stuck⟩ :=
        ih behind.length (n ▸ next?_length next) (before ++ text) behind rfl
      cases kind with
      | gap =>
          obtain ⟨rfl, skips⟩ := next?_eq_gap_iff.mp next
          exact ⟨tokens, read, rest, laid.skip skips, stuck⟩
      | token kind =>
          obtain ⟨rfl, found, ends⟩ := next?_eq_token_iff.mp next
          refine ⟨placed file kind (before ++ []) text :: tokens, read, rest, ?_, stuck⟩
          refine .token .nil found ends ?_
          rwa [List.append_nil]

theorem Laid.whole (laid : Laid file before cs tokens read rest) : read ++ rest = before ++ cs := by
  induction laid with
  | stop => exact List.append_assoc ..
  | token _ _ _ _ ih => simpa using ih

/-- What is read is laid out in the same way if nothing stands behind it. -/
theorem Laid.truncate (laid : Laid file before cs tokens read rest) :
    ∃ inside, cs = inside ++ rest ∧ Laid file before inside tokens read [] := by
  induction laid with
  | @stop before gap rest gapped =>
      refine ⟨gap, rfl, ?_⟩
      have alone : Laid file before (gap ++ []) [] (before ++ gap) [] :=
        .stop (gapped.shorter List.nil_prefix)
      rwa [List.append_nil] at alone
  | @token before gap text behind read rest kind tokens gapped found ends _ ih =>
      obtain ⟨inside, rfl, laid⟩ := ih
      refine ⟨gap ++ (text ++ inside), by simp, ?_⟩
      refine .token (gapped.shorter ?_) found (ends.shorter (List.prefix_append _ _)) laid
      rw [← List.append_assoc]
      exact List.prefix_append _ _

theorem token?_placed (file : String) (kind : TokenKind) (before text : List Char) :
    token? file ⟨.token kind, Text.byteLength before, text⟩ =
      some (placed file kind before text) := by
  simp only [token?, placed, Lexeme.stop, Text.byteLength_append]

theorem cutFrom_gap (gapped : Gap gap behind) (file : String) (done : List Lexeme) (offset : Nat) :
    ∃ lexemes : List Lexeme, lexemes.filterMap (token? file) = [] ∧
      cutFrom done offset (gap ++ behind) =
        cutFrom (lexemes.reverse ++ done) (offset + Text.byteLength gap) behind := by
  induction gapped generalizing done offset with
  | nil => exact ⟨[], rfl, rfl⟩
  | @cons text more behind skips _ ih =>
      obtain ⟨lexemes, silent, same⟩ :=
        ih (⟨.gap, offset, text⟩ :: done) (offset + Text.byteLength text)
      refine ⟨⟨.gap, offset, text⟩ :: lexemes, by simpa [token?] using silent, ?_⟩
      rw [List.append_assoc, cutFrom_some skips.next?, same, Text.byteLength_append, Nat.add_assoc]
      simp

/-- A text is cut into the tokens that it is laid out in. -/
theorem Laid.cutFrom (laid : Laid file before cs tokens read rest) (stuck : next? rest = none)
    (done : List Lexeme) :
    ∃ lexemes : List Lexeme, lexemes.filterMap (token? file) = tokens ∧
      Lexeme.cutFrom done (Text.byteLength before) cs =
        ⟨done.reverse ++ lexemes, Text.byteLength read, rest⟩ := by
  induction laid generalizing done with
  | stop gapped =>
      obtain ⟨lexemes, silent, same⟩ := cutFrom_gap gapped file done (Text.byteLength _)
      refine ⟨lexemes, silent, ?_⟩
      rw [same, cutFrom_none stuck, Text.byteLength_append]
      simp
  | @token before gap text behind read rest kind tokens gapped found ends _ ih =>
      obtain ⟨lexemes, silent, same⟩ := cutFrom_gap gapped file done (Text.byteLength before)
      obtain ⟨others, told, cut⟩ :=
        ih stuck (⟨.token kind, Text.byteLength (before ++ gap), text⟩ :: (lexemes.reverse ++ done))
      refine ⟨lexemes ++ ⟨.token kind, Text.byteLength (before ++ gap), text⟩ :: others, ?_, ?_⟩
      · rw [List.filterMap_append, silent, List.nil_append, List.filterMap_cons, token?_placed,
          told]
      · rw [same, cutFrom_some (found.next? ends), ← Text.byteLength_append,
          ← Text.byteLength_append, cut]
        simp

end Lexeme

namespace Token

open Lexeme (Matches Ends Gap Laid StartsNothing placed reserved reservedKinds isName)
open Text (slice IsBoundary byteLength)

/-- The byte offset at which a token starts. -/
def startByte (t : Token) : Nat := t.span.start.offset.toNat

/-- The byte offset one past a token. -/
def stopByte (t : Token) : Nat := t.span.stop.offset.toNat

/-- A token is what stands at its span in a source, and as long as it can be. -/
structure StandsIn (source : String) (t : Token) : Prop where
  start : IsBoundary source t.startByte
  stop : IsBoundary source t.stopByte
  nonempty : t.startByte < t.stopByte
  text : slice source t.startByte t.stopByte = t.text
  matched : Matches t.kind t.text.toList
  /-- The kinds of reserved words are kept for them. -/
  word : ∀ k ∈ reservedKinds, t.kind = k ↔ (t.text, k) ∈ reserved
  name : t.kind = .identifier ↔ isName t.text = true
  ends : Ends t.text.toList (slice source t.stopByte source.utf8ByteSize).toList
  /-- No longer piece of the source that starts here is the text of a token. -/
  longest : ∀ k piece, piece <+: (slice source t.startByte source.utf8ByteSize).toList →
    Matches k piece → piece.length ≤ t.text.toList.length

/-- Where the gaps are around tokens: from byte `start` to the first token, from each
token to the next, and from the last one to byte `stop`. -/
def gaps : Nat → List Token → Nat → List (Nat × Nat)
  | start, [], stop => [(start, stop)]
  | start, t :: rest, stop => (start, t.startByte) :: gaps t.stopByte rest stop

/-- The gaps of a source and the texts of the tokens between them, put together. -/
def joined (source : String) : Nat → List Token → Nat → String
  | start, [], stop => slice source start stop
  | start, t :: rest, stop =>
    slice source start t.startByte ++ t.text ++ joined source t.stopByte rest stop

/-- From byte `start` to byte `stop` a source is these tokens and gaps between them. -/
structure Covers (source : String) (start : Nat) (tokens : List Token) (stop : Nat) : Prop where
  boundary : IsBoundary source stop
  each : ∀ t ∈ tokens, start ≤ t.startByte ∧ t.StandsIn source
  ordered : tokens.Pairwise fun t u => t.stopByte ≤ u.startByte
  whole : joined source start tokens stop = slice source start stop
  between : ∀ g ∈ gaps start tokens stop, g.1 ≤ g.2 ∧
    Gap (slice source g.1 g.2).toList (slice source g.2 source.utf8ByteSize).toList

variable {file source : String} {before cs text behind read rest gap : List Char}
variable {tokens : List Token} {kind : TokenKind}

/-- Offsets into a source shorter than 2³² bytes are exact. -/
theorem toNat_offset (short : source.utf8ByteSize < 2 ^ 32)
    (whole : source.toList = before ++ behind) :
    (UInt32.ofNat (byteLength before)).toNat = byteLength before := by
  have inside := Text.byteLength_le whole
  exact UInt32.toNat_ofNat_of_lt (by simp [UInt32.size]; omega)

theorem bytes_placed (file : String) (kind : TokenKind) (short : source.utf8ByteSize < 2 ^ 32)
    (whole : source.toList = before ++ (text ++ behind)) :
    (placed file kind before text).startByte = byteLength before ∧
      (placed file kind before text).stopByte = byteLength (before ++ text) :=
  ⟨toNat_offset short whole, toNat_offset short (whole.trans (List.append_assoc ..).symm)⟩

theorem standsIn_placed (short : source.utf8ByteSize < 2 ^ 32)
    (whole : source.toList = before ++ (text ++ behind)) (found : Matches kind text)
    (ends : Ends text behind) : (placed file kind before text).StandsIn source := by
  have whole' : source.toList = (before ++ text) ++ behind := by rw [whole, List.append_assoc]
  have next := found.next? ends
  have nonempty := Text.byteLength_pos (Lexeme.next?_append next).2
  obtain ⟨starts, stops⟩ := bytes_placed file kind short whole
  have spelled : (placed file kind before text).text.toList = text := String.toList_ofList
  constructor
  · rw [starts]
    exact Text.isBoundary_of_append whole
  · rw [stops]
    exact Text.isBoundary_of_append whole'
  · rw [starts, stops, Text.byteLength_append]
    omega
  · rw [starts, stops]
    exact Text.slice_eq whole
  · rwa [spelled]
  · intro k kept
    exact found.eq_reserved_iff kept
  · exact found.eq_identifier_iff
  · rwa [spelled, stops, Text.slice_to_end whole', String.toList_ofList]
  · intro k piece starting matched
    rw [starts, Text.slice_to_end whole, String.toList_ofList] at starting
    obtain ⟨more, split⟩ := starting
    rw [spelled]
    rw [← split] at next
    exact matched.length_le next

/-- What is laid out covers the source up to where the cutting stops. -/
theorem covers_of_laid (short : source.utf8ByteSize < 2 ^ 32)
    (laid : Laid file before cs tokens read rest) (whole : source.toList = before ++ cs) :
    Covers source (byteLength before) tokens (byteLength read) := by
  induction laid with
  | @stop before gap rest gapped =>
      have whole' : source.toList = (before ++ gap) ++ rest := by rw [whole, List.append_assoc]
      refine ⟨Text.isBoundary_of_append whole', by simp, .nil, rfl, ?_⟩
      intro g member
      obtain rfl : g = (byteLength before, byteLength (before ++ gap)) :=
        List.mem_singleton.mp member
      refine ⟨by simp, ?_⟩
      rw [Text.slice_eq whole, Text.slice_to_end whole', String.toList_ofList, String.toList_ofList]
      exact gapped
  | @token before gap text behind read rest kind tokens gapped found ends others ih =>
      have here : source.toList = (before ++ gap) ++ (text ++ behind) := by
        rw [whole, List.append_assoc]
      have after : source.toList = (before ++ gap ++ text) ++ behind := by
        rw [here, List.append_assoc (before ++ gap)]
      obtain ⟨boundary, each, ordered, joins, between⟩ := ih after
      obtain ⟨starts, stops⟩ := bytes_placed file kind short here
      constructor
      · exact boundary
      · refine List.forall_mem_cons.mpr ⟨⟨?_, standsIn_placed short here found ends⟩, ?_⟩
        · rw [starts, Text.byteLength_append]
          omega
        · intro u member
          obtain ⟨later, stands⟩ := each u member
          simp only [Text.byteLength_append] at later
          exact ⟨by omega, stands⟩
      · refine .cons (fun u member => ?_) ordered
        rw [stops]
        exact (each u member).1
      · -- The gap, the token and what is read behind it are one stretch of the source.
        obtain ⟨inside, rfl, alone⟩ := others.truncate
        have reads : read = before ++ gap ++ text ++ inside := by simpa using alone.whole
        have stretch : source.toList = before ++ ((gap ++ (text ++ inside)) ++ rest) := by
          simp [whole]
        have rest_slice : slice source (byteLength (before ++ gap ++ text)) (byteLength read) =
            String.ofList inside := by
          rw [reads]
          exact Text.slice_eq after
        have all_slice : slice source (byteLength before) (byteLength read) =
            String.ofList (gap ++ (text ++ inside)) := by
          rw [reads, List.append_assoc (before ++ gap), List.append_assoc before]
          exact Text.slice_eq stretch
        rw [joined, starts, stops, joins, rest_slice, all_slice, Text.slice_eq whole,
          String.ofList_append, String.ofList_append, String.append_assoc]
        rfl
      · rw [gaps, starts, stops]
        refine List.forall_mem_cons.mpr ⟨⟨by simp, ?_⟩, between⟩
        rw [Text.slice_eq whole, Text.slice_to_end here, String.toList_ofList,
          String.toList_ofList]
        exact gapped

theorem ofSource_of_laid (laid : Laid file [] source.toList tokens read rest)
    (stuck : Lexeme.next? rest = none) :
    ofSource file source =
      match rest with
      | [] => .ok (tokens ++ [eofAt ⟨UInt32.ofNat (byteLength read), file⟩])
      | c :: _ => .error ⟨.unrecognised (String.singleton c),
          ⟨UInt32.ofNat (byteLength read), file⟩⟩ := by
  obtain ⟨lexemes, told, cut⟩ := laid.cutFrom stuck []
  have cut : Lexeme.cutAll source.toList = ⟨lexemes, byteLength read, rest⟩ := cut
  simp only [ofSource, cut, told]
  cases rest <;> rfl

/-- The tokens of a source lose nothing of it and are as long as they can be. Either the
whole source is covered, and an end of input closes the tokens; or the source is
covered, as it would be on its own, up to a character with which nothing begins. -/
theorem ofSource_lossless (file source : String) (short : source.utf8ByteSize < 2 ^ 32) :
    (∃ tokens ending, ofSource file source = .ok (tokens ++ [eofAt ending]) ∧
      ending.offset.toNat = source.utf8ByteSize ∧ (∀ t ∈ tokens, t.kind ≠ .eof) ∧
      Covers source 0 tokens source.utf8ByteSize) ∨
    (∃ tokens position c rest,
      ofSource file source = .error ⟨.unrecognised (String.singleton c), position⟩ ∧
      (slice source position.offset.toNat source.utf8ByteSize).toList = c :: rest ∧
      StartsNothing (c :: rest) ∧ (c = '&' ∨ c = '|' → rest.head? ≠ some c) ∧
      Covers source 0 tokens position.offset.toNat ∧
      ofSource file (slice source 0 position.offset.toNat) = .ok (tokens ++ [eofAt position])) := by
  obtain ⟨tokens, read, rest, laid, stuck⟩ := Lexeme.exists_laid file [] source.toList
  have whole : source.toList = read ++ rest := laid.whole.symm
  have offset := toNat_offset short whole
  have covers := covers_of_laid short laid rfl
  have cut := ofSource_of_laid laid stuck
  cases rest with
  | nil =>
      have size : byteLength read = source.utf8ByteSize := by
        rw [← Text.byteLength_toList, whole, List.append_nil]
      left
      refine ⟨tokens, _, cut, offset.trans size, ?_, size ▸ covers⟩
      intro t member
      exact (covers.each t member).2.matched.wellSpelled.1
  | cons c rest =>
      right
      refine ⟨tokens, ⟨UInt32.ofNat (byteLength read), file⟩, c, rest, cut, ?_⟩
      rw [offset]
      have nothing := Lexeme.startsNothing_of_next? stuck
      refine ⟨?_, nothing, ?_, covers, ?_⟩
      · rw [Text.slice_to_end whole, String.toList_ofList]
      · rintro symbol doubled
        obtain ⟨more, rfl⟩ := List.head?_eq_some_iff.mp doubled
        rcases symbol with rfl | rfl
        · exact nothing.token ['&', '&'] more .and rfl (.pair rfl)
        · exact nothing.token ['|', '|'] more .or rfl (.pair rfl)
      · obtain ⟨inside, split, alone⟩ := laid.truncate
        obtain rfl : read = inside := by simpa using alone.whole
        have start := Text.slice_eq (whole.trans (List.nil_append _).symm)
        have again : Laid file [] (String.ofList read).toList tokens read [] := by
          rwa [String.toList_ofList]
        rw [show slice source 0 (byteLength read) = String.ofList read from start]
        exact ofSource_of_laid again rfl

/-- Two operators that stand together, a comment with a character of two bytes, and half
of an operator. -/
def halfOperator : String := "x==1.5// \u00e9\n&y"

theorem halfOperator_lossless :
    halfOperator.utf8ByteSize < 2 ^ 32 ∧
      ofSource "main" halfOperator = .error ⟨.unrecognised "&", ⟨12, "main"⟩⟩ ∧
      ∃ tokens, Covers halfOperator 0 tokens 12 ∧
        ofSource "main" (slice halfOperator 0 12) = .ok (tokens ++ [eofAt ⟨12, "main"⟩]) := by
  have short : halfOperator.utf8ByteSize < 2 ^ 32 := by decide
  have failed : ofSource "main" halfOperator = .error ⟨.unrecognised "&", ⟨12, "main"⟩⟩ := by
    decide +kernel
  refine ⟨short, failed, ?_⟩
  rcases ofSource_lossless "main" halfOperator short with
    ⟨_, _, cut, -⟩ | ⟨tokens, position, c, rest, cut, -, -, -, covers, alone⟩
  · cases failed.symm.trans cut
  · have same := Except.error.inj (failed.symm.trans cut)
    obtain rfl : ⟨12, "main"⟩ = position := congrArg SyntaxError.position same
    exact ⟨tokens, covers, alone⟩

end Token
end Scriptlet
