import Mathlib.Data.List.Induction
import Scriptlet.Cases

/-!
# Cases from insertions

Cases that were inserted one by one hold no label twice, and inserting cases with
different labels one by one keeps them all, in order. Labels and bodies come from
the insertions, though not always from the same one.
-/

namespace Scriptlet.Cases

variable {α : Type} {label : Value} {body : α} {entries : List (Value × α)}

/-- No label comes up twice. -/
def Distinct (entries : List (Value × α)) : Prop :=
  entries.Pairwise fun first second => first.1.sameKey second.1 = false

theorem ofList_append_singleton (entries : List (Value × α)) (label : Value) (body : α) :
    ofList (entries ++ [(label, body)]) = (ofList entries).insert label body := by
  simp [ofList]

/-- An insertion puts a case behind the others, if its label is new, or else replaces
the body of a case and keeps its label. -/
theorem insertEntry_cases (label : Value) (body : α) (entries : List (Value × α)) :
    (insertEntry label body entries = entries ++ [(label, body)] ∧
      ∀ entry ∈ entries, entry.1.sameKey label = false) ∨
    ∃ before key old behind, entries = before ++ (key, old) :: behind ∧
      key.sameKey label = true ∧ insertEntry label body entries = before ++ (key, body) :: behind := by
  induction entries with
  | nil => exact .inl ⟨rfl, by simp⟩
  | cons entry entries ih =>
      obtain ⟨key, old⟩ := entry
      rw [insertEntry]
      split
      · rename_i same
        exact .inr ⟨[], key, old, entries, rfl, same, rfl⟩
      · rename_i other
        rcases ih with ⟨result, fresh⟩ | ⟨before, key', old', behind, rfl, same, result⟩
        · refine .inl ⟨by rw [result, List.cons_append], ?_⟩
          exact List.forall_mem_cons.mpr ⟨by simpa using other, fresh⟩
        · exact .inr ⟨(key, old) :: before, key', old', behind, rfl, same, by
            rw [result, List.cons_append]⟩

theorem Distinct.insertEntry (distinct : Distinct entries) (label : Value) (body : α) :
    Distinct (insertEntry label body entries) := by
  rcases insertEntry_cases label body entries with
    ⟨result, fresh⟩ | ⟨before, key, old, behind, rfl, -, result⟩
  · rw [result]
    refine List.pairwise_append.mpr ⟨distinct, List.pairwise_singleton _ _, ?_⟩
    intro entry member last isLast
    rw [List.mem_singleton.mp isLast]
    exact fresh entry member
  · rw [result]
    unfold Distinct at distinct ⊢
    simpa [List.pairwise_append, List.pairwise_cons] using distinct

theorem distinct_ofList (entries : List (Value × α)) : Distinct (ofList entries).entries := by
  induction entries using List.reverseRecOn with
  | nil => exact .nil
  | append_singleton entries entry ih =>
      rw [ofList_append_singleton]
      exact ih.insertEntry _ _

/-- Different labels do not get into each other's way. -/
theorem ofList_eq_of_distinct (distinct : Distinct entries) : ofList entries = ⟨entries⟩ := by
  induction entries using List.reverseRecOn with
  | nil => rfl
  | append_singleton entries entry ih =>
      obtain ⟨before, -, fresh⟩ := List.pairwise_append.mp distinct
      obtain ⟨label, body⟩ := entry
      rw [ofList_append_singleton, ih before, insert]
      rcases insertEntry_cases label body entries with
        ⟨result, -⟩ | ⟨before, key, old, behind, rfl, same, -⟩
      · rw [result]
      · have other := fresh (key, old) (by simp) (label, body) (by simp)
        rw [same] at other
        cases other

/-- Labels and bodies come from the insertions. -/
theorem mem_ofList {entry : Value × α} (member : entry ∈ (ofList entries).entries) :
    entry.1 ∈ entries.map Prod.fst ∧ entry.2 ∈ entries.map Prod.snd := by
  induction entries using List.reverseRecOn generalizing entry with
  | nil => cases member
  | append_singleton entries last ih =>
      obtain ⟨label, body⟩ := last
      rw [ofList_append_singleton, insert] at member
      simp only [List.map_append, List.map_cons, List.map_nil, List.mem_append, List.mem_singleton]
      rcases insertEntry_cases label body (ofList entries).entries with
        ⟨result, -⟩ | ⟨before, key, old, behind, split, -, result⟩
      · rw [result] at member
        rcases List.mem_append.mp member with inside | isLast
        · exact ⟨.inl (ih inside).1, .inl (ih inside).2⟩
        · rw [List.mem_singleton.mp isLast]
          exact ⟨.inr rfl, .inr rfl⟩
      · have replaced := (@ih (key, old) (by simp [split])).1
        have kept {entry : Value × α} (inside : entry ∈ before ++ behind) :=
          @ih entry (by rw [split]; simp at inside ⊢; tauto)
        simp only [result, List.mem_append, List.mem_cons] at member
        rcases member with inside | rfl | inside
        · have both := kept (List.mem_append_left _ inside)
          exact ⟨.inl both.1, .inl both.2⟩
        · exact ⟨.inl replaced, .inr rfl⟩
        · have both := kept (List.mem_append_right _ inside)
          exact ⟨.inl both.1, .inl both.2⟩

end Scriptlet.Cases
