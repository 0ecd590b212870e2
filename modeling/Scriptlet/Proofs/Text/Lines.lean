import Scriptlet.Text.Lines

/-!
# Lines and the blanks around them

A list is cut after each break. `Text.Cut` says what its pieces are without saying how
they are found: every piece ends with the first break in it, except that the last one may
lack a break. A list that ends with a break has one piece for each break, and is cut
apart from what follows it. Blanks around a text are dropped, and those inside it stay.
-/

namespace Scriptlet.Text

section

variable {α : Type} {isBreak : α → Bool} {as front body : List α} {pieces : List (List α)}

/-- The pieces of a list, each with the break that ends it. -/
inductive Cut (isBreak : α → Bool) : List α → List (List α) → Prop
  | nil : Cut isBreak [] []
  /-- What is left without a break is a piece, unless it is empty. -/
  | last {body : List α} : body ≠ [] → (∀ a ∈ body, isBreak a = false) →
      Cut isBreak body [body]
  | piece {body rest : List α} {b : α} {pieces : List (List α)} :
      (∀ a ∈ body, isBreak a = false) → isBreak b = true → Cut isBreak rest pieces →
      Cut isBreak (body ++ b :: rest) ((body ++ [b]) :: pieces)

theorem Cut.consPiece (cut : Cut isBreak as pieces) (a : α) :
    Cut isBreak (a :: as) (Text.consPiece isBreak a pieces) := by
  unfold Text.consPiece
  cases ends : isBreak a with
  | true => exact .piece (List.forall_mem_nil _) ends cut
  | false =>
      cases cut with
      | nil => exact .last (List.cons_ne_nil a []) (List.forall_mem_singleton.mpr ends)
      | last _ inside =>
          exact .last (List.cons_ne_nil a _) (List.forall_mem_cons.mpr ⟨ends, inside⟩)
      | piece inside ends' others =>
          exact .piece (List.forall_mem_cons.mpr ⟨ends, inside⟩) ends' others

/-- Cutting finds the pieces. -/
theorem cut_cutAfter (isBreak : α → Bool) (as : List α) : Cut isBreak as (cutAfter isBreak as) := by
  induction as with
  | nil => exact .nil
  | cons a as ih => exact ih.consPiece a

/-- A piece ends with its break. -/
theorem cutAfter_break {b : α} (inside : ∀ a ∈ body, isBreak a = false)
    (ends : isBreak b = true) (rest : List α) :
    cutAfter isBreak (body ++ b :: rest) = (body ++ [b]) :: cutAfter isBreak rest := by
  induction body with
  | nil => exact if_pos ends
  | cons a body ih =>
      obtain ⟨atHead, inBody⟩ := List.forall_mem_cons.mp inside
      rw [List.cons_append, cutAfter_cons, ih inBody]
      exact if_neg (by simp [atHead])

theorem cutAfter_last (nonempty : body ≠ []) (inside : ∀ a ∈ body, isBreak a = false) :
    cutAfter isBreak body = [body] := by
  induction body with
  | nil => exact absurd rfl nonempty
  | cons a body ih =>
      obtain ⟨atHead, inBody⟩ := List.forall_mem_cons.mp inside
      rw [cutAfter_cons]
      cases body with
      | nil => exact if_neg (by simp [atHead])
      | cons a' body =>
          rw [ih (List.cons_ne_nil a' body) inBody]
          exact if_neg (by simp [atHead])

/-- No list has other pieces. -/
theorem Cut.eq_cutAfter (cut : Cut isBreak as pieces) : pieces = cutAfter isBreak as := by
  induction cut with
  | nil => rfl
  | last nonempty inside => exact (cutAfter_last nonempty inside).symm
  | piece inside ends _ ih => rw [cutAfter_break inside ends, ih]

/-- Induction on the pieces of a list that ends with a break. -/
theorem inductionOnEnded {motive : List α → Prop}
    (ended : ∀ a ∈ front.getLast?, isBreak a = true) (nil : motive [])
    (piece : ∀ body b rest, (∀ a ∈ body, isBreak a = false) → isBreak b = true →
      motive rest → motive (body ++ b :: rest)) : motive front := by
  have cut := cut_cutAfter isBreak front
  generalize cutAfter isBreak front = pieces at cut
  induction cut with
  | nil => exact nil
  | @last body nonempty inside =>
      have last := ended _ (List.getLast?_eq_some_getLast nonempty)
      rw [inside _ (List.getLast_mem nonempty)] at last
      cases last
  | @piece body rest b pieces inside ends _ ih =>
      refine piece body b rest inside ends (ih fun a last => ended a ?_)
      rw [List.getLast?_append, List.getLast?_cons]
      simp [Option.mem_def.mp last]

/-- What ends with a break is cut apart from what follows. -/
theorem cutAfter_append (ended : ∀ a ∈ front.getLast?, isBreak a = true) (as : List α) :
    cutAfter isBreak (front ++ as) = cutAfter isBreak front ++ cutAfter isBreak as := by
  refine inductionOnEnded (motive := fun front => cutAfter isBreak (front ++ as) =
    cutAfter isBreak front ++ cutAfter isBreak as) ended rfl ?_
  intro body b rest inside ends ih
  rw [List.append_assoc, List.cons_append, cutAfter_break inside ends,
    cutAfter_break inside ends, ih, List.cons_append]

/-- It has as many pieces as breaks. -/
theorem length_cutAfter (ended : ∀ a ∈ front.getLast?, isBreak a = true) :
    (cutAfter isBreak front).length = front.countP isBreak := by
  refine inductionOnEnded (motive := fun front => (cutAfter isBreak front).length =
    front.countP isBreak) ended rfl ?_
  intro body b rest inside ends ih
  have unbroken : body.countP isBreak = 0 := by
    rw [List.countP_eq_zero]
    intro a member
    simp [inside a member]
  rw [cutAfter_break inside ends, List.length_cons, ih, List.countP_append, unbroken,
    List.countP_cons_of_pos ends, Nat.zero_add]

end

variable {before cs after : List Char}

theorem dropWhile_of_dark (dark : ∀ c ∈ cs, isBlank c = false) : cs.dropWhile isBlank = cs := by
  cases cs with
  | nil => rfl
  | cons c rest => rw [List.dropWhile_cons_of_neg (by simp [dark c])]

theorem trimEnd_append (trailing : ∀ c ∈ after, isBlank c = true) (cs : List Char) :
    trimEnd (cs ++ after) = trimEnd cs := by
  have back : ∀ c ∈ after.reverse, isBlank c = true := fun c member =>
    trailing c (List.mem_reverse.mp member)
  rw [trimEnd, List.reverse_append, List.dropWhile_append_of_pos back, trimEnd]

theorem trimEnd_of_dark (dark : ∀ c ∈ cs, isBlank c = false) : trimEnd cs = cs := by
  have back : ∀ c ∈ cs.reverse, isBlank c = false := fun c member =>
    dark c (List.mem_reverse.mp member)
  rw [trimEnd, dropWhile_of_dark back, List.reverse_reverse]

/-- Blanks around a text without blanks are dropped. -/
theorem trim_padded (leading : ∀ c ∈ before, isBlank c = true)
    (dark : ∀ c ∈ cs, isBlank c = false) (trailing : ∀ c ∈ after, isBlank c = true) :
    trim (before ++ cs ++ after) = cs := by
  rw [trim, trimStart, List.append_assoc, List.dropWhile_append_of_pos leading]
  cases cs with
  | nil =>
      have none : (after ++ []).dropWhile isBlank = [] := List.dropWhile_append_of_pos trailing
      rw [List.append_nil] at none
      rw [List.nil_append, none]
      rfl
  | cons c rest =>
      rw [List.cons_append, List.dropWhile_cons_of_neg (by simp [dark c]), ← List.cons_append,
        trimEnd_append trailing, trimEnd_of_dark dark]

/-- What stands up to a character that is no blank stays. -/
theorem trimEnd_append_cons {c : Char} (dark : isBlank c = false) (before after : List Char) :
    trimEnd (before ++ c :: after) = before ++ c :: trimEnd after := by
  have back : (before ++ c :: after).reverse = after.reverse ++ c :: before.reverse := by simp
  have stops : (after.reverse ++ c :: before.reverse).dropWhile isBlank =
      after.reverse.dropWhile isBlank ++ c :: before.reverse := by
    rw [List.dropWhile_append]
    split
    · rename_i blank
      rw [List.isEmpty_iff.mp blank, List.dropWhile_cons_of_neg (by simp [dark]), List.nil_append]
    · rfl
  rw [trimEnd, back, stops, trimEnd]
  simp

end Scriptlet.Text
