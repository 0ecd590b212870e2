import Mathlib.Data.Finset.Card
import Mathlib.Data.List.Induction
import Mathlib.Data.Quot
import Scriptlet.Proofs.Cases
import Scriptlet.Proofs.Number.Doubles

/-!
# Cases as a map on classes of labels

Being the same label is an equivalence on all values: `Value.label` is what two values
of one class have in common. Cases that were inserted one by one are a map on these
classes. A class keeps the place and the spelling of its first insertion and the body
of its last one.
-/

namespace Scriptlet

namespace Value

open Binary64

/-- What makes a label: a truth value, or a number up to the sign of zero, where all
that is not a number counts as one. -/
def label : Value → Option Int ⊕ Bool
  | .num x => .inl (if x.isNaN then none else some (signedRank (isNegative x) (rank x)))
  | .bool b => .inr b

theorem sameKey_iff (v w : Value) : v.sameKey w = true ↔ v.label = w.label := by
  cases v with
  | bool a => cases w <;> simp [sameKey, label]
  | num x =>
      cases w with
      | bool b => simp [sameKey, label]
      | num y =>
          simp only [sameKey, label, Bool.or_eq_true, Bool.and_eq_true, Sum.inl.injEq, beq_iff,
            isNaN_eq, decide_eq_true_iff]
          by_cases beyond : infinityRank < rank x <;> by_cases beyond' : infinityRank < rank y
          · simp [beyond, beyond']
          · simp [beyond, beyond']
          · simp [beyond, beyond']
          · simp [beyond, beyond', Nat.not_lt.mp beyond, Nat.not_lt.mp beyond']

/-- Being the same label is an equivalence, also on zeros and on what is not a number. -/
theorem sameKey_equivalence : Equivalence fun v w : Value => v.sameKey w = true := by
  simp only [sameKey_iff]
  exact InvImage.equivalence Eq label eq_equivalence

/-- Values as labels. -/
def labelSetoid : Setoid Value := ⟨fun v w => v.sameKey w = true, sameKey_equivalence⟩

instance : DecidableEq (Quotient labelSetoid) :=
  @Quotient.decidableEq _ labelSetoid fun v w => inferInstanceAs (Decidable (v.sameKey w = true))

theorem sameKey_comm (v w : Value) : v.sameKey w = w.sameKey v := by
  rw [Bool.eq_iff_iff, sameKey_iff, sameKey_iff, eq_comm]

/-- Values of one class are the same label as any other value alike. -/
theorem sameKey_congr {v w : Value} (same : v.sameKey w = true) (u : Value) :
    v.sameKey u = w.sameKey u := by
  rw [sameKey_iff] at same
  rw [Bool.eq_iff_iff, sameKey_iff, sameKey_iff, same]

end Value

namespace Cases

variable {α : Type}

/-- A new label is added behind the others, and a label that is there stays as it is. -/
theorem keys_insert (cases : Cases α) (label : Value) (body : α) :
    (cases.insert label body).keys =
      if cases.keys.any (label.sameKey ·) then cases.keys else cases.keys ++ [label] := by
  unfold keys insert
  rcases insertEntry_cases label body cases.entries with
    ⟨result, fresh⟩ | ⟨before, key, old, behind, split, same, result⟩
  · have none : ¬(cases.entries.map Prod.fst).any (label.sameKey ·) = true := by
      simp only [List.any_map, List.any_eq_true, Function.comp_apply, not_exists, not_and]
      intro entry member same
      rw [Value.sameKey_comm, fresh entry member] at same
      cases same
    rw [if_neg none, result, List.map_append, List.map_cons, List.map_nil]
  · have found : (cases.entries.map Prod.fst).any (label.sameKey ·) = true := by
      rw [List.any_map, List.any_eq_true]
      exact ⟨(key, old), by simp [split], (label.sameKey_comm key).trans same⟩
    rw [if_pos found, result, split]
    simp

/-- The inserted body is found under its label, and all other labels keep their bodies. -/
theorem get?_insert (cases : Cases α) (label : Value) (body : α) (v : Value) :
    (cases.insert label body).get? v =
      if label.sameKey v then some body else cases.get? v := by
  obtain ⟨entries⟩ := cases
  unfold get? insert
  -- The replaced case is the first one with its label, which `insertEntry_cases` leaves out.
  induction entries with
  | nil => cases same : label.sameKey v <;> simp [insertEntry, same]
  | cons entry rest ih =>
      obtain ⟨key, old⟩ := entry
      by_cases here : key.sameKey label = true
      · have alike : key.sameKey v = label.sameKey v := Value.sameKey_congr here v
        cases same : label.sameKey v <;> simp [insertEntry, here, alike, same]
      · cases found : key.sameKey v with
        | false => simpa [insertEntry, here, found] using ih
        | true =>
            have other : label.sameKey v = false := by
              rw [Value.sameKey_comm, ← Value.sameKey_congr found, Bool.eq_false_iff]
              exact here
            simp [insertEntry, here, found, other]

/-- Inserting one by one keeps the first spelling of each label, in order. The labels that
are there already are those that `eraseDupsBy` has seen, which it keeps in reverse. -/
theorem keys_foldl_insert (entries : List (Value × α)) (cases : Cases α) :
    (entries.foldl (fun cases entry => cases.insert entry.1 entry.2) cases).keys =
      List.eraseDupsBy.loop Value.sameKey (entries.map Prod.fst) cases.keys.reverse := by
  induction entries generalizing cases with
  | nil => simp [List.eraseDupsBy.loop]
  | cons entry rest ih =>
      rw [List.foldl_cons, ih, keys_insert, List.map_cons, List.eraseDupsBy.loop, List.any_reverse]
      cases cases.keys.any (entry.1.sameKey ·) <;> simp

theorem keys_ofList (entries : List (Value × α)) :
    (ofList entries).keys = (entries.map Prod.fst).eraseDupsBy Value.sameKey :=
  keys_foldl_insert entries empty

/-- The last body inserted for a label is the one that is found. -/
theorem get?_ofList (entries : List (Value × α)) (v : Value) :
    (ofList entries).get? v =
      (entries.filter fun entry => entry.1.sameKey v).getLast?.map Prod.snd := by
  induction entries using List.reverseRecOn with
  | nil => rfl
  | append_singleton entries entry ih =>
      rw [ofList_append_singleton, get?_insert, List.filter_append]
      cases same : entry.1.sameKey v <;> simp [same, ih]

/-- Every inserted label is the same as one of the labels that are kept. -/
theorem exists_key_of_mem {entries : List (Value × α)} {entry : Value × α}
    (member : entry ∈ entries) : ∃ key ∈ (ofList entries).keys, key.sameKey entry.1 = true := by
  have found : ((ofList entries).get? entry.1).isSome := by
    rw [get?_ofList, Option.isSome_map, List.getLast?_isSome]
    intro none
    have own := Value.sameKey_equivalence.refl entry.1
    have gone := List.filter_eq_nil_iff.mp none entry member
    exact gone own
  unfold get? at found
  rw [Option.isSome_map, List.find?_isSome] at found
  obtain ⟨kept, inside, same⟩ := found
  exact ⟨kept.1, List.mem_map_of_mem inside, same⟩

theorem pairwise_keys_ofList (entries : List (Value × α)) :
    (ofList entries).keys.Pairwise fun v w => v.sameKey w = false :=
  List.pairwise_map.mpr (distinct_ofList entries)

/-- There are as many cases as classes of labels. -/
theorem size_ofList (entries : List (Value × α)) :
    (ofList entries).size =
      (entries.map fun entry => Quotient.mk Value.labelSetoid entry.1).toFinset.card := by
  have apart : ((ofList entries).keys.map (Quotient.mk Value.labelSetoid)).Nodup := by
    refine List.pairwise_map.mpr ((pairwise_keys_ofList entries).imp fun differ same => ?_)
    rw [show _ = true from Quotient.exact same] at differ
    cases differ
  have classes : (entries.map fun entry => Quotient.mk Value.labelSetoid entry.1).toFinset =
      ((ofList entries).keys.map (Quotient.mk Value.labelSetoid)).toFinset := by
    ext c
    simp only [List.mem_toFinset, List.mem_map]
    constructor
    · rintro ⟨entry, member, rfl⟩
      obtain ⟨key, kept, same⟩ := exists_key_of_mem member
      exact ⟨key, kept, Quotient.sound same⟩
    · rintro ⟨key, kept, rfl⟩
      obtain ⟨entry, inside, rfl⟩ := List.mem_map.mp kept
      obtain ⟨entry', member, same⟩ := List.mem_map.mp (mem_ofList inside).1
      exact ⟨entry', member, congrArg _ same⟩
  rw [classes, List.toFinset_card_of_nodup apart, List.length_map, length_keys]

/-- Cases inserted one by one are a map on classes of labels, where zeros of both signs
are one class and all that is not a number is another. No class comes up twice; a class
stands where it was first inserted and with the label that was inserted there; its body
is that of the last insertion; and there is one case for each class. -/
theorem ofList_lastWriteWins (entries : List (Value × α)) :
    (Equivalence fun v w : Value => v.sameKey w = true) ∧
    (∀ x y : Float, x.isNaN = true → y.isNaN = true → (Value.num x).sameKey (.num y) = true) ∧
    (Value.num 0).sameKey (.num (-0)) = true ∧
    ((ofList entries).keys.Pairwise fun v w => v.sameKey w = false) ∧
    (ofList entries).keys = (entries.map Prod.fst).eraseDupsBy Value.sameKey ∧
    (∀ v, (ofList entries).get? v =
      (entries.filter fun entry => entry.1.sameKey v).getLast?.map Prod.snd) ∧
    (ofList entries).size =
      (entries.map fun entry => Quotient.mk Value.labelSetoid entry.1).toFinset.card := by
  refine ⟨Value.sameKey_equivalence, fun x y notX notY => ?_, by decide,
    pairwise_keys_ofList entries, keys_ofList entries, get?_ofList entries, size_ofList entries⟩
  simp only [Value.sameKey, notX, notY, Bool.and_self, Bool.or_true]

/-- The first zero keeps its sign, and the last body is found under either. -/
example (first second last : α) :
    (ofList [(.num (-0), first), (.bool false, second), (.num 0, last)]).entries =
      [(.num (-0), last), (.bool false, second)] := by
  rfl

end Cases
end Scriptlet
