import Scriptlet.Proofs.Input.Lines
import Scriptlet.Proofs.Text.Places

/-!
# Looking up a line by a byte offset

A text is cut into lines by its characters, and an offset counts its bytes, so it may fall
inside a character. Both views have the same lines, because the byte of a newline stands for
nothing else (`Cut.encode`). The bytes before an offset hold the newlines of the lines above
the one that it falls into, and none of that line's own (`Cut.countP_take`). So an offset is
looked up in the line whose number counts the newlines before it, and the lines above it
together with the column give the offset again.
-/

namespace Scriptlet.Text

section

variable {α : Type} {isBreak : α → Bool} {as : List α} {above below : List (List α)}
variable {line : List α} {column : Nat}

/-- Up to a place inside a piece there is one break for each piece above it. -/
theorem Cut.countP_take (cut : Cut isBreak as (above ++ line :: below))
    (inside : column < line.length) :
    (as.take (above.flatten.length + column)).countP isBreak = above.length := by
  have unbroken {body : List α} (whole : ∀ a ∈ body, isBreak a = false) (n : Nat) :
      (body.take n).countP isBreak = 0 := by
    rw [List.countP_eq_zero]
    intro a member
    simp [whole a (List.mem_of_mem_take member)]
  induction above generalizing as with
  | nil =>
      rw [List.flatten_nil, List.length_nil, Nat.zero_add]
      rw [List.nil_append] at cut
      cases cut with
      | last _ whole => exact unbroken whole column
      | piece whole ends _ =>
          rw [List.length_append, List.length_singleton] at inside
          rw [List.take_append_of_le_length (by omega)]
          exact unbroken whole column
  | cons first above ih =>
      rw [List.cons_append] at cut
      generalize split : above ++ line :: below = others at cut
      cases cut with
      | last => exact absurd split (by simp)
      | @piece body rest b _ whole ends cut =>
          subst split
          have before := unbroken whole body.length
          rw [List.take_length] at before
          have beyond : ((body ++ [b]) :: above).flatten.length + column =
              (body ++ [b]).length + (above.flatten.length + column) := by
            rw [List.flatten_cons, List.length_append]
            omega
          have split : body ++ b :: rest = (body ++ [b]) ++ rest := by simp
          rw [beyond, split, List.take_length_add_append, List.countP_append, ih cut,
            List.countP_append, before, List.countP_singleton, if_pos ends, List.length_cons]
          omega

end

variable {cs : List Char} {lines : List (List Char)} {position : Nat} {place : Place}

/-- The bytes of a list of characters. -/
def encode (cs : List Char) : List UInt8 := cs.flatMap String.utf8EncodeChar

theorem encode_append (cs more : List Char) : encode (cs ++ more) = encode cs ++ encode more :=
  List.flatMap_append

theorem length_encode (cs : List Char) : (encode cs).length = byteLength cs := by
  induction cs with
  | nil => rfl
  | cons c cs ih =>
      rw [← List.singleton_append, encode_append, List.length_append, ih, byteLength_append]
      simp [encode, String.length_utf8EncodeChar]

theorem length_flatten_encode (lines : List (List Char)) :
    (lines.map encode).flatten.length = byteLength lines.flatten := by
  induction lines with
  | nil => rfl
  | cons line lines ih =>
      rw [List.map_cons, List.flatten_cons, List.length_append, ih, length_encode,
        List.flatten_cons, byteLength_append]

theorem encode_of_single (single : ∀ c ∈ cs, (c == '\n') = false) :
    ∀ b ∈ encode cs, (b == 10) = false := by
  intro b member
  obtain ⟨c, inside, encoded⟩ := List.mem_flatMap.mp member
  rw [beq_eq_false_iff_ne]
  rintro rfl
  have other := single c inside
  rw [eq_newline_of_mem encoded] at other
  cases other

/-- The lines of a text are the lines of its bytes. -/
theorem Cut.encode (cut : Cut (· == '\n') cs lines) :
    Cut (· == 10) (Text.encode cs) (lines.map Text.encode) := by
  induction cut with
  | nil => exact .nil
  | @last body nonempty single =>
      refine .last ?_ (encode_of_single single)
      rw [← List.length_pos_iff, length_encode]
      exact Nat.lt_of_lt_of_le (List.length_pos_iff.mpr nonempty) (length_le_byteLength body)
  | @piece body rest b _ single ends _ ih =>
      obtain rfl : b = '\n' := by simpa using ends
      have newline : Text.encode ['\n'] = [10] := rfl
      rw [← List.singleton_append, encode_append, encode_append, newline, List.map_cons,
        encode_append, newline]
      exact .piece (encode_of_single single) rfl ih

theorem byteLength_flatten (lines : List (List Char)) :
    byteLength lines.flatten = (lines.map byteLength).sum := by
  induction lines with
  | nil => rfl
  | cons line lines ih =>
      rw [List.flatten_cons, byteLength_append, ih, List.map_cons, List.sum_cons]

/-- Every offset inside some lines falls into one of them. -/
theorem exists_line_of_lt (inside : position < byteLength lines.flatten) :
    ∃ above line below column, lines = above ++ line :: below ∧ column < byteLength line ∧
      byteLength above.flatten + column = position := by
  induction lines generalizing position with
  | nil => exact absurd inside (Nat.not_lt_zero position)
  | cons first lines ih =>
      rw [List.flatten_cons, byteLength_append] at inside
      by_cases here : position < byteLength first
      · exact ⟨[], first, lines, position, rfl, here, Nat.zero_add position⟩
      · have later : position - byteLength first < byteLength lines.flatten := by omega
        obtain ⟨above, line, below, column, rfl, within, sum⟩ := ih later
        refine ⟨first :: above, line, below, column, rfl, within, ?_⟩
        rw [List.flatten_cons, byteLength_append]
        omega

theorem placeAt_of_pieces {above below : List (List Char)} {line : List Char} {column : Nat}
    (cut : pieces cs = above ++ line :: below) (within : column < byteLength line) :
    placeAt cs (byteLength above.flatten + column) = some ⟨1 + above.length, line, column⟩ := by
  have found := findPlace_append above below within 1 0
  rw [Nat.zero_add] at found
  rw [placeAt, cut, found]

theorem placeAt_eq_none_iff : placeAt cs position = none ↔ byteLength cs ≤ position := by
  have whole : (pieces cs).flatten = cs := flatten_cutAfter _ cs
  constructor
  · intro missing
    refine Nat.not_lt.mp fun inside => ?_
    rw [← whole] at inside
    obtain ⟨above, line, below, column, cut, within, rfl⟩ := exists_line_of_lt inside
    rw [placeAt_of_pieces cut within] at missing
    cases missing
  · intro beyond
    exact findPlace_beyond (by rwa [Nat.zero_add, whole]) 1

/-- A place is found exactly if its line stands below one line less than its number says,
and the offset is as far behind the start of the line as the column says. -/
theorem placeAt_eq_some_iff : placeAt cs position = some place ↔
    ∃ above below, pieces cs = above ++ place.text :: below ∧ place.number = 1 + above.length ∧
      place.column < byteLength place.text ∧
      byteLength above.flatten + place.column = position := by
  constructor
  · intro found
    have inside : position < byteLength (pieces cs).flatten := by
      rw [pieces, flatten_cutAfter]
      refine Nat.not_le.mp fun beyond => ?_
      rw [placeAt_eq_none_iff.mpr beyond] at found
      cases found
    obtain ⟨above, line, below, column, cut, within, rfl⟩ := exists_line_of_lt inside
    rw [placeAt_of_pieces cut within] at found
    cases found
    exact ⟨above, below, cut, rfl, within, rfl⟩
  · rintro ⟨above, below, cut, number, within, rfl⟩
    rw [placeAt_of_pieces cut within, ← number]

/-- The newline bytes before an offset are those of the lines above. -/
theorem count_newlines {source : String} {above below : List (List Char)} {line : List Char}
    {column : Nat} (cut : pieces source.toList = above ++ line :: below)
    (within : column < byteLength line) :
    ((bytes source).take (byteLength above.flatten + column)).count 10 = above.length := by
  have asBytes := (cut_cutAfter (· == '\n') source.toList).encode
  rw [← pieces, cut, List.map_append, List.map_cons] at asBytes
  rw [← length_encode] at within
  have counted := asBytes.countP_take within
  rw [length_flatten_encode, List.length_map] at counted
  rw [bytes_eq_flatMap]
  exact counted

/-- Looking up an offset undoes cutting into lines. Nothing is found from the end of the
text on. Before it, the line found has one more than the newline bytes before the offset as
its number, it is the piece of the text with this number, the column is inside it, and the
bytes of the pieces above together with the column are the offset; no other place has these
properties. -/
theorem placeAt_inverts_pieces (source : String) (position : Nat) :
    let lines := pieces source.toList
    Cut (· == '\n') source.toList lines ∧
    (placeAt source.toList position = none ↔ source.utf8ByteSize ≤ position) ∧
    ∀ place, placeAt source.toList position = some place ↔
      place.number = 1 + ((bytes source).take position).count 10 ∧
      lines[place.number - 1]? = some place.text ∧
      place.column < byteLength place.text ∧
      ((lines.take (place.number - 1)).map byteLength).sum + place.column = position := by
  intro lines
  refine ⟨cut_cutAfter _ _, ?_, fun place => ?_⟩
  · rw [placeAt_eq_none_iff, byteLength_toList]
  rw [placeAt_eq_some_iff]
  constructor
  · rintro ⟨above, below, cut, number, within, rfl⟩
    have index : place.number - 1 = above.length := by omega
    refine ⟨?_, ?_, within, ?_⟩
    · rw [count_newlines cut within, number]
    · simp only [lines, cut, index, List.getElem?_append_right (Nat.le_refl _), Nat.sub_self,
        List.getElem?_cons_zero]
    · simp only [lines, cut, index, List.take_left, byteLength_flatten]
  · rintro ⟨number, found, within, sum⟩
    obtain ⟨inside, isLine⟩ := List.getElem?_eq_some_iff.mp found
    have cut : lines =
        lines.take (place.number - 1) ++ place.text :: lines.drop (place.number - 1 + 1) := by
      rw [← isLine, ← List.drop_eq_getElem_cons inside, List.take_append_drop]
    refine ⟨_, _, cut, ?_, within, by rw [byteLength_flatten, sum]⟩
    rw [List.length_take, Nat.min_eq_left (Nat.le_of_lt inside)]
    omega

/-- The second byte of a character of two bytes, behind a line break. -/
example : placeAt "a\né".toList 3 = some ⟨2, ['é'], 1⟩ := by decide

end Scriptlet.Text
