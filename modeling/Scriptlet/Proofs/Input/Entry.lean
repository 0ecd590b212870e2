import Scriptlet.Proofs.Cases.Labels
import Scriptlet.Proofs.Input.Lines

/-!
# Entering what was printed

A value that is entered as it is printed, with any blanks around it, is read back: as
itself, or as zero if it is a negative zero, whose text has no sign. Only what is not a
number cannot be entered. No text is read as values of both types, so a printed value is
never taken for one of the other type.
-/

namespace Scriptlet.Value

open Binary64

variable {ty ty' : Ty} {v : Value} {cs cs' before after : List Char}

/-- Whether a value is not a number, in the sense of doubles. -/
def isNaN : Value → Bool
  | .num x => x.isNaN
  | .bool _ => false

/-- Blanks around a text do not matter. -/
theorem ofInput?_congr (same : Text.trim cs = Text.trim cs') : ofInput? ty cs = ofInput? ty cs' := by
  unfold ofInput?
  rw [same]

/-- Only the texts of the truth values are read as such, and neither of them writes a
number. -/
theorem ofInput?_num_of_bool (given : ofInput? .bool cs = some v) : ofInput? .num cs = none := by
  have text : ∃ b, Text.trim cs = (renderBool b).toList := by
    simp only [ofInput?] at given
    split at given
    · exact ⟨true, ‹_›⟩
    · split at given
      · exact ⟨false, ‹_›⟩
      · cases given
  obtain ⟨b, trimmed⟩ := text
  have same : Text.trim cs = Text.trim (renderBool b).toList := by
    rw [trimmed]
    cases b <;> decide
  rw [ofInput?_congr same]
  cases b <;> decide

/-- A text is read as a value of one type at most. -/
theorem ofInput?_other (given : ofInput? ty cs = some v) (differs : ty' ≠ ty) :
    ofInput? ty' cs = none := by
  cases ty with
  | bool =>
      cases ty' with
      | bool => exact absurd rfl differs
      | num => exact ofInput?_num_of_bool given
  | num =>
      cases ty' with
      | num => exact absurd rfl differs
      | bool =>
          cases other : ofInput? .bool cs with
          | none => rfl
          | some w => cases given.symm.trans (ofInput?_num_of_bool other)

theorem render_dark (legible : v.Legible) : ∀ c ∈ v.render.toList, Text.isBlank c = false := by
  cases v with
  | num x => exact (ofInput?_renderNumber legible).1
  | bool b => cases b <;> exact Text.dark_of_all rfl

/-- A text without blanks is read alike with any blanks around it. -/
theorem ofInput?_padded (leading : ∀ c ∈ before, Text.isBlank c = true)
    (dark : ∀ c ∈ cs, Text.isBlank c = false) (trailing : ∀ c ∈ after, Text.isBlank c = true)
    (ty : Ty) : ofInput? ty (before ++ cs ++ after) = ofInput? ty (cs ++ ['\n']) := by
  apply ofInput?_congr
  rw [Text.trim_padded leading dark trailing, Text.trim_line dark]

/-- What is printed of a number is the text of a value that reads back as itself: of the
number, or of zero. -/
theorem exists_legible (number : v.isNaN = false) :
    ∃ w, w.Legible ∧ w.render = v.render ∧ w.ty = v.ty ∧ w.sameKey v = true ∧
      (v ≠ .num (-0) → w = v) := by
  by_cases signed : v = .num (-0)
  · subst signed
    exact ⟨.num 0, ⟨by decide, by decide⟩, by decide, rfl, by decide, fun other => absurd rfl other⟩
  · refine ⟨v, ?_, rfl, rfl, sameKey_equivalence.refl v, fun _ => rfl⟩
    cases v with
    | num x => exact ⟨number, fun same => signed (congrArg Value.num same)⟩
    | bool b => trivial

theorem render_of_isNaN (noNumber : v.isNaN = true) : v.ty = .num ∧ v.render = "NaN" := by
  cases v with
  | bool b => cases noNumber
  | num x =>
      have noNumber : x.isNaN = true := noNumber
      have beyond : infinityRank < rank x := by
        simpa only [isNaN_eq, decide_eq_true_eq] using noNumber
      have notInf : x.isInf = false := by
        rw [isInf_eq, decide_eq_false_iff_not]
        omega
      have notZero : ¬ (x == 0) = true := by
        rw [beq_zero_iff]
        omega
      refine ⟨rfl, ?_⟩
      simp only [render, renderNumber, notInf, notZero, noNumber, Bool.false_eq_true, if_false,
        if_true]

/-- What was printed can be entered again with any blanks around it: a value that is not
"not a number" is read as the same label, and as itself unless it is a negative zero; what
is not a number is not read; and nothing is read as a value of the other type. -/
theorem ofInput?_printed (v : Value) (leading : ∀ c ∈ before, Text.isBlank c = true)
    (trailing : ∀ c ∈ after, Text.isBlank c = true) :
    (v.isNaN = false → ∃ w, ofInput? v.ty (before ++ v.render.toList ++ after) = some w ∧
      w.sameKey v = true ∧ (v ≠ .num (-0) → w = v)) ∧
    (v.isNaN = true → ofInput? v.ty (before ++ v.render.toList ++ after) = none) ∧
    ∀ ty, ty ≠ v.ty → ofInput? ty (before ++ v.render.toList ++ after) = none := by
  cases number : v.isNaN with
  | true =>
      obtain ⟨typed, rendered⟩ := render_of_isNaN number
      have dark : ∀ c ∈ "NaN".toList, Text.isBlank c = false := Text.dark_of_all rfl
      have unread (ty : Ty) : ofInput? ty (before ++ v.render.toList ++ after) = none := by
        rw [rendered, ofInput?_padded leading dark trailing]
        cases ty <;> decide
      exact ⟨nofun, fun _ => unread v.ty, fun ty _ => unread ty⟩
  | false =>
      obtain ⟨w, legible, rendered, typed, key, same⟩ := exists_legible number
      have read : ofInput? v.ty (before ++ v.render.toList ++ after) = some w := by
        have line : (w.render ++ "\n").toList = w.render.toList ++ ['\n'] := String.toList_append ..
        rw [← rendered, ← typed, ofInput?_padded leading (render_dark legible) trailing, ← line]
        exact (ofInput?_render legible).2
      refine ⟨fun _ => ⟨w, read, key, same⟩, nofun, fun ty differs => ?_⟩
      exact ofInput?_other read differs

/-- A negative number between a tab and a no-break space, and a negative zero before a
newline. -/
theorem negatives_printed :
    (∃ w, ofInput? .num (['\t'] ++ (Value.num (-2.5)).render.toList ++ ['\u00a0']) = some w ∧
      w = .num (-2.5)) ∧
    (∃ w, ofInput? .num ([] ++ (Value.num (-0)).render.toList ++ ['\n']) = some w ∧
      w.sameKey (.num (-0)) = true) ∧
    ofInput? .bool ([] ++ (Value.num (-0)).render.toList ++ ['\n']) = none := by
  have single (c : Char) (blank : Text.isBlank c = true) : ∀ d ∈ [c], Text.isBlank d = true :=
    List.forall_mem_singleton.mpr blank
  obtain ⟨w, read, -, same⟩ :=
    (ofInput?_printed (.num (-2.5)) (single '\t' rfl) (single '\u00a0' rfl)).1 (by decide)
  obtain ⟨zero, -, other⟩ :=
    ofInput?_printed (.num (-0)) (List.forall_mem_nil _) (single '\n' rfl)
  obtain ⟨w', read', key, -⟩ := zero (by decide)
  exact ⟨⟨w, read, same (by decide)⟩, ⟨w', read', key⟩, other .bool (by decide)⟩

end Scriptlet.Value
