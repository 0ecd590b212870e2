import Mathlib.Data.List.Induction
import Scriptlet.Proofs.Text.Lines

/-!
# Places of a text

A byte offset inside a text is looked up line by line. `Text.LineAt` says where a line
stands without looking it up: behind the start of the text or a newline, and up to the next
newline or the end. The line of an offset has one more than the newlines above it as its
number, and the bytes before the offset in the line as the column. The end of a text is
shown at its last line, which is the one before the last newline if the text ends with one.
-/

namespace Scriptlet.Text

variable {cs above line below left right : List Char}

theorem length_le_byteLength (cs : List Char) : cs.length ≤ byteLength cs := by
  induction cs with
  | nil => exact Nat.le_refl 0
  | cons c cs ih =>
      have := c.utf8Size_pos
      rw [List.length_cons, byteLength_cons]
      omega

/-- A text has as many bytes as characters if each takes one byte. -/
theorem byteLength_eq_length_iff :
    byteLength cs = cs.length ↔ ∀ x ∈ cs, x.utf8Size = 1 := by
  induction cs with
  | nil => simp
  | cons c cs ih =>
      have least := length_le_byteLength cs
      have positive := c.utf8Size_pos
      rw [List.forall_mem_cons, ← ih, byteLength_cons, List.length_cons]
      omega

/-- A line of a text between what stands above it and, from its line break on, below it. -/
structure LineAt (cs above line below : List Char) : Prop where
  whole : cs = above ++ (line ++ below)
  fresh : ∀ c ∈ above.getLast?, c = '\n'
  single : '\n' ∉ line
  ended : ∀ c ∈ below.head?, c = '\n'

/-- Every text is lines up to a newline and a rest without one. -/
theorem exists_fresh (cs : List Char) :
    ∃ above left, cs = above ++ left ∧ (∀ c ∈ above.getLast?, c = '\n') ∧ '\n' ∉ left := by
  induction cs using List.reverseRecOn with
  | nil => exact ⟨[], [], rfl, by simp, by simp⟩
  | append_singleton cs c ih =>
      by_cases newline : c = '\n'
      · exact ⟨cs ++ [c], [], by simp, by simp [newline], by simp⟩
      · obtain ⟨above, left, rfl, fresh, single⟩ := ih
        refine ⟨above, left ++ [c], by simp, fresh, ?_⟩
        simp [single, Ne.symm newline]

theorem exists_ended (cs : List Char) :
    ∃ right below, cs = right ++ below ∧ '\n' ∉ right ∧ ∀ c ∈ below.head?, c = '\n' := by
  induction cs with
  | nil => exact ⟨[], [], rfl, by simp, by simp⟩
  | cons c cs ih =>
      by_cases newline : c = '\n'
      · exact ⟨[], c :: cs, rfl, by simp, by simp [newline]⟩
      · obtain ⟨right, below, rfl, single, ended⟩ := ih
        refine ⟨c :: right, below, rfl, ?_, ended⟩
        simp [single, Ne.symm newline]

/-- Every place of a text stands in a line. -/
theorem exists_lineAt (before behind : List Char) :
    ∃ above left right below, before = above ++ left ∧ behind = right ++ below ∧
      LineAt (before ++ behind) above (left ++ right) below := by
  obtain ⟨above, left, rfl, fresh, single⟩ := exists_fresh before
  obtain ⟨right, below, rfl, single', ended⟩ := exists_ended behind
  refine ⟨above, left, right, below, rfl, rfl, by simp, fresh, ?_, ended⟩
  simp [single, single']

theorem unbroken_of_single (single : '\n' ∉ line) : ∀ c ∈ line, (c == '\n') = false := by
  intro c member
  rw [beq_eq_false_iff_ne]
  rintro rfl
  exact single member

/-- A line is a piece of its text, together with its newline if it has one. -/
theorem LineAt.pieces_eq (stands : LineAt cs above line below) (nonempty : line ++ below ≠ []) :
    pieces cs = pieces above ++ (line ++ below.take 1) :: pieces (below.drop 1) := by
  have fresh : ∀ c ∈ above.getLast?, (c == '\n') = true := fun c last => by
    simp [stands.fresh c last]
  have unbroken := unbroken_of_single stands.single
  rw [stands.whole, pieces, cutAfter_append fresh]
  cases below with
  | nil =>
      rw [List.append_nil] at nonempty ⊢
      rw [cutAfter_last nonempty unbroken]
      simp [pieces]
  | cons c below =>
      have newline : (c == '\n') = true := by simp [stands.ended c rfl]
      rw [cutAfter_break unbroken newline]
      rfl

theorem length_pieces (fresh : ∀ c ∈ above.getLast?, c = '\n') :
    (pieces above).length = above.count '\n' :=
  length_cutAfter fun c last => by simp [fresh c last]

/-- The walk over lines stops at the one that holds the offset. -/
theorem findPlace_append (above below : List (List Char)) {line : List Char} {column : Nat}
    (inside : column < byteLength line) (number start : Nat) :
    findPlace (start + byteLength above.flatten + column) number start (above ++ line :: below) =
      some ⟨number + above.length, line, column⟩ := by
  induction above generalizing number start with
  | nil =>
      have here : start ≤ start + column ∧ start + column < start + byteLength line := by omega
      simp [findPlace, here]
  | cons first above ih =>
      have later : ¬ (start ≤ start + byteLength (first :: above).flatten + column ∧
          start + byteLength (first :: above).flatten + column < start + byteLength first) := by
        rw [List.flatten_cons, byteLength_append]
        omega
      rw [List.cons_append, findPlace]
      rw [if_neg later, List.flatten_cons, byteLength_append, ← Nat.add_assoc, ih,
        List.length_cons, Nat.add_assoc, Nat.add_comm 1]

theorem findPlace_beyond {lines : List (List Char)} {position start : Nat}
    (beyond : start + byteLength lines.flatten ≤ position) (number : Nat) :
    findPlace position number start lines = none := by
  induction lines generalizing number start with
  | nil => rfl
  | cons line lines ih =>
      rw [List.flatten_cons, byteLength_append, ← Nat.add_assoc] at beyond
      rw [findPlace]
      rw [if_neg (by omega), ih beyond]

/-- An offset is found in its line: the number counts the newlines above, and the column
the bytes before it. -/
theorem LineAt.placeAt_eq (stands : LineAt cs above (left ++ right) below) (inside : right ≠ []) :
    placeAt cs (byteLength (above ++ left)) =
      some ⟨1 + above.count '\n', left ++ right ++ below.take 1, byteLength left⟩ := by
  have within : byteLength left < byteLength (left ++ right ++ below.take 1) := by
    obtain ⟨c, rest, rfl⟩ := List.exists_cons_of_ne_nil inside
    have := c.utf8Size_pos
    simp only [byteLength_append, byteLength_cons]
    omega
  have found := findPlace_append (pieces above) (pieces (below.drop 1)) within 1 0
  rw [length_pieces stands.fresh, pieces, flatten_cutAfter, Nat.zero_add,
    ← byteLength_append] at found
  rw [placeAt, stands.pieces_eq (by simp [inside])]
  exact found

theorem placeAt_end (cs : List Char) : placeAt cs (byteLength cs) = none := by
  refine findPlace_beyond (Nat.le_of_eq ?_) 1
  rw [pieces, flatten_cutAfter, Nat.zero_add]

/-- The last line of a text, without its line break. No line starts behind a line break at
the end. -/
inductive LastLine : (cs above line : List Char) → Prop
  | empty : LastLine [] [] []
  | unended {above line : List Char} : (∀ c ∈ above.getLast?, c = '\n') → '\n' ∉ line →
      line ≠ [] → LastLine (above ++ line) above line
  | newline {above line : List Char} : (∀ c ∈ above.getLast?, c = '\n') → '\n' ∉ line →
      line.getLast? ≠ some '\r' → LastLine (above ++ (line ++ ['\n'])) above line
  | carriage {above line : List Char} : (∀ c ∈ above.getLast?, c = '\n') → '\n' ∉ line →
      LastLine (above ++ (line ++ ['\r', '\n'])) above line

theorem exists_lastLine (cs : List Char) : ∃ above line, LastLine cs above line := by
  obtain ⟨above, line, rfl, fresh, single⟩ := exists_fresh cs
  by_cases nonempty : line = []
  · subst nonempty
    rw [List.append_nil]
    rcases List.eq_nil_or_concat above with rfl | ⟨front, c, rfl⟩
    · exact ⟨[], [], .empty⟩
    · obtain rfl : c = '\n' := fresh c (by simp)
      obtain ⟨above, line, rfl, fresh', single'⟩ := exists_fresh front
      rw [List.concat_eq_append, List.append_assoc]
      by_cases returned : line.getLast? = some '\r'
      · obtain ⟨text, rfl⟩ := List.getLast?_eq_some_iff.mp returned
        have single' : '\n' ∉ text := fun member => single' (List.mem_append_left _ member)
        rw [List.append_assoc]
        exact ⟨above, text, .carriage fresh' single'⟩
      · exact ⟨above, line, .newline fresh' single' returned⟩
  · exact ⟨above, line, .unended fresh single nonempty⟩

theorem dropBreak_of_single (single : '\n' ∉ line) : dropBreak line = line := by
  unfold dropBreak
  split
  · rename_i back
    exact absurd (List.mem_reverse.mp (back ▸ List.mem_cons_self)) single
  · rename_i back
    exact absurd (List.mem_reverse.mp (back ▸ List.mem_cons_self)) single
  · rfl

theorem dropBreak_newline (unreturned : line.getLast? ≠ some '\r') :
    dropBreak (line ++ ['\n']) = line := by
  simp only [dropBreak, List.reverse_append, List.reverse_singleton, List.singleton_append]
  split
  · rename_i rest back
    have back := congrArg List.head? (List.cons.inj back).2
    rw [List.head?_reverse] at back
    exact absurd back unreturned
  · rename_i rest _ back
    rw [← (List.cons.inj back).2, List.reverse_reverse]
  · rename_i none
    exact absurd rfl (none _)

theorem dropBreak_carriage (line : List Char) : dropBreak (line ++ ['\r', '\n']) = line := by
  simp [dropBreak]

/-- The end of a text is found in its last piece. -/
theorem endPlace_of_pieces {piece : List Char} (fresh : ∀ c ∈ above.getLast?, c = '\n')
    (cut : pieces cs = pieces above ++ [piece]) (dropped : dropBreak piece = line) :
    endPlace cs = ⟨1 + above.count '\n', line, byteLength line⟩ := by
  have last : (pieces above ++ [piece]).getLastD [] = piece := by simp
  have number : max (pieces above ++ [piece]).length 1 = 1 + above.count '\n' := by
    rw [List.length_append, length_pieces fresh, List.length_singleton]
    omega
  rw [endPlace, cut]
  simp only [last, number, dropped]

/-- The end of a text is one past its last line. -/
theorem LastLine.endPlace_eq (last : LastLine cs above line) :
    endPlace cs = ⟨1 + above.count '\n', line, byteLength line⟩ := by
  cases last with
  | empty => rfl
  | unended fresh single nonempty =>
      have stands : LineAt (above ++ line) above line [] := ⟨by simp, fresh, single, by simp⟩
      have cut := stands.pieces_eq (by simpa using nonempty)
      exact endPlace_of_pieces fresh cut (by simpa using dropBreak_of_single single)
  | newline fresh single unreturned =>
      have stands : LineAt (above ++ (line ++ ['\n'])) above line ['\n'] :=
        ⟨rfl, fresh, single, by simp⟩
      exact endPlace_of_pieces fresh (stands.pieces_eq (by simp)) (dropBreak_newline unreturned)
  | carriage fresh single =>
      have stands : LineAt (above ++ (line ++ ['\r', '\n'])) above (line ++ ['\r']) ['\n'] :=
        ⟨by simp, fresh, by simp [single], by simp⟩
      have cut := stands.pieces_eq (by simp)
      rw [List.append_assoc] at cut
      exact endPlace_of_pieces fresh cut (dropBreak_carriage line)

end Scriptlet.Text
