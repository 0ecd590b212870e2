import Scriptlet.Proofs.Exec.Sources
import Scriptlet.Proofs.Text.Lines
import Scriptlet.Proofs.Token.Matching

/-!
# Values entered as lines

A queue of values can be entered as text, each value on a line of its own as it is
printed. A text is cut into these lines again, since a printed value has no newline
in it, and the value read from a line is the one that was printed. Two values are
lost on the way: what is not a number is not accepted, and the text of a negative
zero has no sign. Without them, and as long as no read asks for another type than
the next value has, a run cannot tell the lines from the queue.
-/

namespace Scriptlet

namespace Text

/-- The bytes of a text. -/
def bytes (text : String) : List UInt8 := text.toUTF8.data.toList

theorem bytes_append (text more : String) : bytes (text ++ more) = bytes text ++ bytes more := by
  simp [bytes, String.toUTF8_eq_toByteArray]

theorem bytes_eq_flatMap (text : String) :
    bytes text = text.toList.flatMap String.utf8EncodeChar := by
  have encoded : text.toByteArray = text.toList.utf8Encode := by
    rw [← String.toByteArray_ofList, String.ofList_toList]
  rw [bytes, String.toUTF8_eq_toByteArray, encoded, List.utf8Encode, List.data_toByteArray]

/-- The byte of a newline stands for nothing else: all bytes of a longer encoding are
above it. -/
theorem eq_newline_of_mem {c : Char} (member : 10 ∈ String.utf8EncodeChar c) : c = '\n' := by
  have byte {n : Nat} (same : (10 : UInt8) = UInt8.ofNat n) : n % 256 = 10 := by
    have low := congrArg UInt8.toNat same
    simpa using low.symm
  simp only [String.utf8EncodeChar] at member
  split at member
  · have low := byte (List.mem_singleton.mp member)
    refine Char.ext (UInt32.toNat_inj.mp ?_)
    change c.val.toNat = 10
    omega
  · split at member
    · simp only [List.mem_cons, List.not_mem_nil, or_false] at member
      rcases member with same | same <;> have low := byte same <;> omega
    · split at member
      · simp only [List.mem_cons, List.not_mem_nil, or_false] at member
        rcases member with same | same | same <;> have low := byte same <;> omega
      · simp only [List.mem_cons, List.not_mem_nil, or_false] at member
        rcases member with same | same | same | same <;> have low := byte same <;> omega

theorem newline_of_mem_bytes {text : String} (member : 10 ∈ bytes text) : '\n' ∈ text.toList := by
  rw [bytes_eq_flatMap, List.mem_flatMap] at member
  obtain ⟨c, inText, encoded⟩ := member
  exact eq_newline_of_mem encoded ▸ inText

theorem fromUTF8?_bytes (text : String) :
    String.fromUTF8? ⟨(bytes text).toArray⟩ = some text := by
  rw [bytes, Array.toArray_toList, String.toUTF8_eq_toByteArray]
  exact dif_pos text.isValidUTF8

/-- Texts without newlines, each on a line of its own, are cut apart again. -/
theorem cutAfter_lines {texts : List String} (single : ∀ text ∈ texts, '\n' ∉ text.toList) :
    cutAfter (· == 10) (bytes (String.join (texts.map (· ++ "\n")))) =
      texts.map fun text => bytes (text ++ "\n") := by
  induction texts with
  | nil => rfl
  | cons text texts ih =>
      obtain ⟨first, others⟩ := List.forall_mem_cons.mp single
      have inside : ∀ b ∈ bytes text, (b == 10) = false := by
        intro b member
        rw [beq_eq_false_iff_ne]
        rintro rfl
        exact first (newline_of_mem_bytes member)
      have newline : bytes "\n" = [10] := rfl
      rw [List.map_cons, String.join_cons, bytes_append, bytes_append, newline, List.append_assoc,
        List.singleton_append, cutAfter_break inside rfl, ih others, List.map_cons, bytes_append,
        newline]

/-- A line without other blanks than its newline. -/
theorem trim_line {cs : List Char} (dark : ∀ c ∈ cs, isBlank c = false) :
    trim (cs ++ ['\n']) = cs :=
  trim_padded (List.forall_mem_nil _) dark (List.forall_mem_singleton.mpr (by decide))

theorem dark_of_all {cs : List Char} (all : (cs.all fun c => !isBlank c) = true) :
    ∀ c ∈ cs, isBlank c = false := by
  simpa using all

end Text

namespace Decimal

open Lexeme (isBlank_of_isDigit)

namespace Numeral

/-- A numeral is as long as a number at its start can be. -/
theorem isNumeral {cs : List Char} {d : Decimal} (numeral : Numeral cs d) :
    isNumeral cs = true := by
  obtain ⟨c, rest, same, digit⟩ := numeral.starts
  have ends : Lexeme.Ends cs [] := by
    subst same
    exact .of_digit digit (by simp) (by simp)
  have whole := Lexeme.spanNumber_append_stop numeral ends
  have first : cs.head?.any Char.isDigit = true := by simp [same, digit]
  rw [List.append_nil] at whole
  simp [Scriptlet.isNumeral, whole, first]

theorem dark {cs : List Char} {d : Decimal} (numeral : Numeral cs d) :
    ∀ c ∈ cs, Text.isBlank c = false := by
  cases numeral with
  | whole _ inside => exact fun c member => isBlank_of_isDigit (inside c member)
  | point _ inside _ inside' =>
      refine List.forall_mem_append.mpr ⟨fun c member => isBlank_of_isDigit (inside c member), ?_⟩
      refine List.forall_mem_cons.mpr ⟨by decide, ?_⟩
      exact fun c member => isBlank_of_isDigit (inside' c member)

theorem ne_infinity {cs : List Char} {d : Decimal} (numeral : Numeral cs d) :
    cs ≠ "Infinity".toList := by
  obtain ⟨c, rest, same, digit⟩ := numeral.starts
  rw [same]
  rintro word
  have letter : c = 'I' := List.head_eq_of_cons_eq word
  rw [letter] at digit
  cases digit

end Numeral

end Decimal

namespace Value

open Binary64

/-- A value whose text gives it back: neither a negative zero nor what is not a number. -/
def Legible : Value → Prop
  | .num x => x.isNaN = false ∧ x ≠ -0
  | .bool _ => True

/-- A finite number is printed in plain notation, also if it is zero. -/
theorem renderNumber_finite {x : Float} (finite : rank x < infinityRank) (signed : x ≠ -0) :
    renderNumber x = String.ofList (Decimal.write x) := by
  have notInf : x.isInf = false := by rw [isInf_eq, decide_eq_false_iff_not]; omega
  have notNaN : x.isNaN = false := by rw [isNaN_eq, decide_eq_false_iff_not]; omega
  by_cases zero : (x == 0) = true
  · have same := ofRank_rank x finite.le
    rw [beq_zero_iff.mp zero] at same
    have positive : isNegative x = false := by
      by_contra negative
      rw [Bool.not_eq_false] at negative
      have flipped : -ofRank false 0 = ofRank true 0 := neg_ofRank (Nat.zero_le infinityRank)
      rw [ofRank_zero] at flipped
      exact signed (by rw [flipped, ← same, negative])
    rw [positive, ofRank_zero] at same
    subst same
    rfl
  · simp only [renderNumber, notInf, zero, notNaN, Bool.false_eq_true, if_false]

/-- What is read from a number is told by what stands behind its sign. -/
theorem ofInput?_num {cs magnitude : List Char} (negative : Bool)
    (trimmed : Text.trim cs = (if negative then ['-'] else []) ++ magnitude)
    (unsigned : magnitude.head? ≠ some '-') :
    ofInput? .num cs =
      if magnitude = "Infinity".toList then some (.num (ofRank negative infinityRank))
      else if isNumeral magnitude then (Decimal.read? (Text.trim cs)).map .num else none := by
  unfold ofInput?
  cases negative with
  | true => simp only [trimmed, if_true, List.singleton_append]
  | false =>
      simp only [trimmed, Bool.false_eq_true, if_false, List.nil_append]
      split
      · exact absurd rfl unsigned
      · rfl

/-- A number on a line is read as the number that was printed. -/
theorem ofInput?_renderNumber {x : Float} (legible : (Value.num x).Legible) :
    (∀ c ∈ (renderNumber x).toList, Text.isBlank c = false) ∧
      ofInput? .num ((renderNumber x).toList ++ ['\n']) = some (.num x) := by
  obtain ⟨number, signed⟩ := legible
  rw [isNaN_eq, decide_eq_false_iff_not, Nat.not_lt] at number
  rcases number.lt_or_eq with finite | infinite
  · have numeral : Decimal.Numeral (Decimal.writeMagnitude (rank x)) _ := Decimal.numeral_plain _
    have text : (renderNumber x).toList = Decimal.write x := by
      rw [renderNumber_finite finite signed, String.toList_ofList]
    have dark : ∀ c ∈ Decimal.write x, Text.isBlank c = false := by
      refine List.forall_mem_append.mpr ⟨?_, numeral.dark⟩
      cases isNegative x <;> exact Text.dark_of_all rfl
    have unsigned : (Decimal.writeMagnitude (rank x)).head? ≠ some '-' := by
      obtain ⟨c, rest, same, digit⟩ := numeral.starts
      rw [same]
      rintro ⟨⟩
      cases digit
    have trimmed := Text.trim_line dark
    rw [text]
    refine ⟨dark, ?_⟩
    rw [ofInput?_num (isNegative x) trimmed unsigned, if_neg numeral.ne_infinity,
      if_pos numeral.isNumeral, trimmed, Decimal.read?_write finite, Option.map_some]
  · have isInf : x.isInf = true := by rw [isInf_eq, decide_eq_true_iff, infinite]
    have text : (renderNumber x).toList =
        (if isNegative x then ['-'] else []) ++ "Infinity".toList := by
      rw [renderNumber, if_pos isInf]
      cases isNegative x <;> rfl
    have dark : ∀ c ∈ (renderNumber x).toList, Text.isBlank c = false := by
      rw [text]
      cases isNegative x <;> exact Text.dark_of_all rfl
    have trimmed := (Text.trim_line dark).trans text
    refine ⟨dark, ?_⟩
    rw [ofInput?_num (isNegative x) trimmed (by decide), if_pos rfl, ← infinite,
      ofRank_rank x number]

/-- A value that is entered as it is printed is read as it is. -/
theorem ofInput?_render {v : Value} (legible : v.Legible) :
    '\n' ∉ v.render.toList ∧ ofInput? v.ty (v.render ++ "\n").toList = some v := by
  have line : (v.render ++ "\n").toList = v.render.toList ++ ['\n'] := String.toList_append ..
  rw [line]
  cases v with
  | num x =>
      obtain ⟨dark, same⟩ := ofInput?_renderNumber legible
      exact ⟨fun newline => absurd (dark _ newline) (by decide), same⟩
  | bool b => cases b <;> exact ⟨by decide, by decide⟩

end Value

/-- The text in which each value stands on a line of its own. -/
def Queue.text (values : Queue) : String := String.join (values.map fun v => v.render ++ "\n")

namespace LineInput

/-- The lines still hold exactly the values of the queue, and every prompt fits. -/
structure Holds (values : Queue) (input : LineInput) : Prop where
  lines : input.lines = values.map fun v => Text.bytes (v.render ++ "\n")
  legible : ∀ v ∈ values, v.Legible
  ample : input.prompt.room = none

theorem holds_ofBytes {values : Queue} (legible : ∀ v ∈ values, v.Legible) {prompt : Prompt}
    (ample : prompt.room = none) : Holds values (ofBytes (Text.bytes values.text) prompt) := by
  refine ⟨?_, legible, ample⟩
  have single : ∀ text ∈ values.map Value.render, '\n' ∉ text.toList := by
    intro text member
    obtain ⟨v, inside, rfl⟩ := List.mem_map.mp member
    exact (Value.ofInput?_render (legible v inside)).1
  have cut := Text.cutAfter_lines single
  rw [List.map_map, List.map_map] at cut
  exact cut

/-- A prompt that takes everything takes a text and leaves room for the next one. -/
theorem write_of_ample {prompt : Prompt} (ample : prompt.room = none) (text : String) :
    Prompt.write text prompt = (.ok (), { prompt with written := prompt.written ++ text }) := by
  unfold Prompt.write
  rw [ample]

/-- Lines answer like the queue they hold, if the queue has a value of the type that is
asked for next. -/
theorem alike_holds : InputSource.Alike Holds fun e => ∃ ty v, e = .mismatch ty v := by
  intro ty values input holds
  obtain ⟨lines, prompt⟩ := input
  have ample : prompt.room = none := holds.ample
  have asked := write_of_ample ample (Prompt.question ty)
  change Attempt.Matched _ _ _ (Queue.read ty values) (readLines ty lines prompt)
  rw [readLines, asked]
  cases values with
  | nil =>
      obtain rfl : lines = [] := holds.lines
      exact .same ⟨rfl, holds.legible, ample⟩
  | cons v rest =>
      obtain ⟨first, others⟩ := List.forall_mem_cons.mp holds.legible
      obtain rfl : lines = _ := holds.lines
      by_cases fits : v.ty = ty
      · have accepted := (Value.ofInput?_render first).2
        rw [fits] at accepted
        rw [Queue.read_of_ty fits]
        simp only [List.map_cons, Text.fromUTF8?_bytes, accepted]
        exact .same ⟨rfl, others, ample⟩
      · rw [Queue.read_of_ty_ne fits]
        exact .excused ⟨ty, v, rfl⟩ trivial

end LineInput

/-- A program that reads its values from lines does what it does when it reads them
from a queue: it returns if and only if it returns there, with the same result and
output. Only a read that asks the queue for a value of the wrong type is told apart. -/
theorem Stmt.execute_lines (program : Stmt) (rounds : Nat) (values : Queue)
    (legible : ∀ v ∈ values, v.Legible) (prompt : Prompt) (ample : prompt.room = none)
    (fits : ∀ ty v m, program.execute rounds values ≠
      (.error (.failed (.input (.mismatch ty v))), m)) :
    (program.execute rounds (LineInput.ofBytes (Text.bytes values.text) prompt)).1 =
        (program.execute rounds values).1 ∧
      (program.execute rounds (LineInput.ofBytes (Text.bytes values.text) prompt)).2.output =
        (program.execute rounds values).2.output := by
  have together : Machine.Paired LineInput.Holds (.start values)
      (.start (LineInput.ofBytes (Text.bytes values.text) prompt)) :=
    ⟨rfl, LineInput.holds_ofBytes legible ample, rfl⟩
  have outcome := (program.exec_tracks LineInput.alike_holds rounds).tracks _ _ together
  unfold Stmt.execute at fits ⊢
  generalize program.exec rounds (.start values) = queued at outcome fits ⊢
  generalize program.exec rounds (.start (LineInput.ofBytes _ _)) = entered at outcome ⊢
  cases outcome with
  | same still => exact ⟨rfl, still.output⟩
  | excused excuse _ =>
      obtain ⟨cause, rfl, ty, v, rfl⟩ := excuse
      exact absurd rfl (fits ty v _)

/-- A negative number and an infinite one are read from their lines. -/
theorem Stmt.echoing_lines :
    let values : Queue := [.bool true, .num (-5), .bool true, .num (1 / 0), .bool false]
    (echoing.execute 3 (LineInput.ofBytes (Text.bytes values.text) .unbounded)).1 = .ok () ∧
      (echoing.execute 3 (LineInput.ofBytes (Text.bytes values.text) .unbounded)).2.output =
        #[.num (-5), .num (1 / 0)] := by
  intro values
  have legible : ∀ v ∈ values, v.Legible := by
    simp only [values, List.forall_mem_cons]
    exact ⟨trivial, ⟨by decide, by decide⟩, trivial, ⟨by decide, by decide⟩, trivial, nofun⟩
  exact execute_lines echoing 3 values legible .unbounded rfl nofun

end Scriptlet
