import Mathlib.Algebra.Order.Field.Power
import Mathlib.Algebra.Order.Field.Rat
import Mathlib.Tactic.FieldSimp
import Mathlib.Tactic.Linarith
import Mathlib.Tactic.Positivity
import Scriptlet.Number.Shortest
import Scriptlet.Proofs.Number.Doubles

/-!
# The nearest rank of an exact value

A fraction that is the value of a double has the rank of that double: its exponent
is found from two logarithms (`Fraction.exponent_eq`), and in units of it nothing
is left to round. So the full decimal expansion of a double reads back as it.
-/

namespace Scriptlet

namespace Binary64

namespace Fraction

/-- The number that a fraction stands for. -/
def value (f : Fraction) : ℚ := f.num / f.den

variable {f : Fraction}

theorem value_shift (f : Fraction) (e : ℤ) : (f.shift e).value = f.value / 2 ^ e := by
  unfold value shift
  obtain ⟨n, rfl | rfl⟩ := e.eq_nat_or_neg
  · simp only [Int.toNat_natCast, Int.toNat_neg_natCast, pow_zero, mul_one, zpow_natCast]
    push_cast
    rw [div_div]
  · simp only [neg_neg, Int.toNat_natCast, Int.toNat_neg_natCast, pow_zero, mul_one, zpow_neg,
      zpow_natCast, div_inv_eq_mul]
    push_cast
    rw [div_mul_eq_mul_div]

theorem den_shift_pos (positive : 0 < f.den) (e : ℤ) : 0 < (f.shift e).den := by
  unfold shift
  positivity

theorem num_lt_den_iff (positive : 0 < f.den) : f.num < f.den ↔ f.value < 1 := by
  have : (0 : ℚ) < f.den := by exact_mod_cast positive
  rw [value, div_lt_one this, Nat.cast_lt]

/-- The two logarithms bound the value within a factor of four. -/
theorem log2_bounds (num : 0 < f.num) (den : 0 < f.den) :
    (2 : ℚ) ^ ((f.num.log2 : ℤ) - f.den.log2 - 1) < f.value ∧
      f.value < 2 ^ ((f.num.log2 : ℤ) - f.den.log2 + 1) := by
  have numLow : (2 : ℚ) ^ f.num.log2 ≤ f.num := by exact_mod_cast Nat.log2_self_le num.ne'
  have numHigh : (f.num : ℚ) < 2 ^ (f.num.log2 + 1) := by exact_mod_cast Nat.lt_log2_self
  have denLow : (2 : ℚ) ^ f.den.log2 ≤ f.den := by exact_mod_cast Nat.log2_self_le den.ne'
  have denHigh : (f.den : ℚ) < 2 ^ (f.den.log2 + 1) := by exact_mod_cast Nat.lt_log2_self
  have positive : (0 : ℚ) < f.den := by exact_mod_cast den
  have split (k n : ℕ) (e : ℤ) (sum : e + k = n) : (2 : ℚ) ^ e * 2 ^ k = 2 ^ n := by
    rw [← zpow_natCast, ← zpow_natCast, ← zpow_add₀ (by norm_num), sum]
  constructor
  · rw [value, lt_div_iff₀ positive]
    calc (2 : ℚ) ^ ((f.num.log2 : ℤ) - f.den.log2 - 1) * f.den
        < 2 ^ ((f.num.log2 : ℤ) - f.den.log2 - 1) * 2 ^ (f.den.log2 + 1) := by gcongr
      _ = 2 ^ f.num.log2 := split _ _ _ (by push_cast; omega)
      _ ≤ f.num := numLow
  · rw [value, div_lt_iff₀ positive]
    calc (f.num : ℚ) < 2 ^ (f.num.log2 + 1) := numHigh
      _ = 2 ^ ((f.num.log2 : ℤ) - f.den.log2 + 1) * 2 ^ f.den.log2 :=
          (split _ _ _ (by push_cast; omega)).symm
      _ ≤ 2 ^ ((f.num.log2 : ℤ) - f.den.log2 + 1) * f.den := by gcongr

/-- The exponent of a fraction is the least one, from -1074 on, in units of which it
is below `2 ^ 53`. -/
theorem exponent_eq (num : 0 < f.num) (den : 0 < f.den) {e : ℤ} (least : -1074 ≤ e)
    (below : f.value < 2 ^ (e + 53)) (above : e = -1074 ∨ 2 ^ (e + 52) ≤ f.value) :
    f.exponent = e := by
  obtain ⟨low, high⟩ := log2_bounds num den
  have order {m n : ℤ} (less : (2 : ℚ) ^ m < 2 ^ n) : m < n :=
    (zpow_lt_zpow_iff_right₀ (by norm_num)).mp less
  have lower : (f.num.log2 : ℤ) - f.den.log2 - 1 < e + 53 := order (low.trans below)
  have upper : e = -1074 ∨ e + 52 < (f.num.log2 : ℤ) - f.den.log2 + 1 :=
    above.imp_right fun h => order (h.trans_lt high)
  simp only [exponent]
  generalize found : max ((f.num.log2 : ℤ) - f.den.log2 - 53) (-1074) = guess
  have small_iff : (f.shift (guess + 53)).num < (f.shift (guess + 53)).den ↔
      f.value < 2 ^ (guess + 53) := by
    rw [num_lt_den_iff (den_shift_pos den _), value_shift, div_lt_one (by positivity)]
  split
  · rename_i small
    have : e = -1074 ∨ e + 52 < guess + 53 := 
      above.imp_right fun h => order (h.trans_lt (small_iff.mp small))
    omega
  · rename_i large
    have : guess + 53 < e + 53 := 
      order ((not_lt.mp fun h => large (small_iff.mpr h)).trans_lt below)
    omega

theorem round_eq (den : 0 < f.den) {m : ℕ} (exact : f.value = m) : f.round = m := by
  have positive : (f.den : ℚ) ≠ 0 := by exact_mod_cast den.ne'
  have whole : f.num = m * f.den := by
    rw [value, div_eq_iff positive] at exact
    exact_mod_cast exact
  simp [round, whole, den]

end Fraction

/-- The mantissa has 53 bits unless the exponent is the least, and the two give the
rank again. -/
theorem scaledOfRank_canonical (r : ℕ) :
    (scaledOfRank r).mantissa < 2 ^ 53 ∧ -1074 ≤ (scaledOfRank r).exponent ∧
      ((scaledOfRank r).exponent = -1074 ∨ 2 ^ 52 ≤ (scaledOfRank r).mantissa) ∧
      ((scaledOfRank r).exponent + 1074).toNat * 2 ^ 52 + (scaledOfRank r).mantissa = r := by
  by_cases low : r < 2 ^ 52
  · simp only [scaledOfRank_low low]
    exact ⟨by omega, le_rfl, .inl trivial, by simp⟩
  · simp only [scaledOfRank_high (not_lt.mp low)]
    omega

/-- A fraction that is the value of a finite double has its rank. -/
theorem nearestRank_eq {f : Fraction} {r : ℕ} (den : 0 < f.den) (positive : 0 < r)
    (finite : r < infinityRank)
    (exact : f.value = (scaledOfRank r).mantissa * 2 ^ (scaledOfRank r).exponent) :
    nearestRank f = r := by
  have mantissa := mantissa_scaledOfRank_pos positive
  have num : 0 < f.num := by
    refine Nat.pos_of_ne_zero fun zero => ?_
    have : (0 : ℚ) < (scaledOfRank r).mantissa := by exact_mod_cast mantissa
    have : f.value = 0 := by simp [Fraction.value, zero]
    have : (0 : ℚ) < f.value := exact ▸ by positivity
    linarith
  have canonical := scaledOfRank_canonical r
  generalize (scaledOfRank r).mantissa = m, (scaledOfRank r).exponent = e at *
  obtain ⟨bound, least, normal, place⟩ := canonical
  have boundQ : (m : ℚ) < 2 ^ (53 : ℤ) := by exact_mod_cast bound
  have found : f.exponent = e := by
    refine Fraction.exponent_eq num den least ?_ (normal.imp_right fun normal => ?_)
    · rw [exact, add_comm, zpow_add₀ (by norm_num)]
      gcongr
    · have normalQ : (2 : ℚ) ^ (52 : ℤ) ≤ m := by exact_mod_cast normal
      rw [exact, add_comm, zpow_add₀ (by norm_num)]
      gcongr
  have whole : (f.shift e).round = m := by
    refine Fraction.round_eq (Fraction.den_shift_pos den e) ?_
    rw [Fraction.value_shift, exact]
    field_simp
  simp only [nearestRank, num.ne', if_false, found, whole, place, min_eq_left finite.le]

end Binary64

namespace Decimal

open Binary64

theorem den_toFraction_pos (d : Decimal) : 0 < d.toFraction.den := by
  unfold toFraction
  positivity

theorem value_exact (d : Scaled) : (exact d).toFraction.value = d.mantissa * 2 ^ d.exponent := by
  unfold exact Fraction.value toFraction
  split
  · rename_i whole
    obtain ⟨n, same⟩ := Int.eq_ofNat_of_zero_le whole
    simp [same]
  · rename_i fractional
    obtain ⟨n, same⟩ : ∃ n : ℕ, d.exponent = -n := ⟨(-d.exponent).toNat, by omega⟩
    have ten : (10 : ℚ) ^ n = 5 ^ n * 2 ^ n := by rw [← mul_pow]; norm_num
    simp only [same, neg_neg, Int.toNat_natCast, Int.toNat_neg_natCast, pow_zero, mul_one, zpow_neg,
      zpow_natCast]
    push_cast
    rw [ten]
    field_simp

/-- The full decimal expansion of a finite double reads back as it. -/
theorem toRank_exact {r : ℕ} (positive : 0 < r) (finite : r < infinityRank) :
    (exact (scaledOfRank r)).toRank = r := by
  have mantissa := mantissa_scaledOfRank_pos positive
  obtain ⟨-, least, -, -⟩ := scaledOfRank_canonical r
  have nonzero : (exact (scaledOfRank r)).coefficient ≠ 0 := by
    unfold exact
    split <;> simp only <;> positivity
  have power : -1074 ≤ (exact (scaledOfRank r)).power ∧ (exact (scaledOfRank r)).power ≤ 0 := by
    unfold exact
    split <;> simp only <;> omega
  rw [toRank, if_neg nonzero, if_neg (by omega), if_neg (by omega)]
  exact nearestRank_eq (den_toFraction_pos _) positive finite (value_exact _)

/-- A candidate on a grid has been read back. -/
theorem toRank_of_onGrid {r : ℕ} {f : Fraction} {power : ℤ} {d : Decimal}
    (found : onGrid? r f power = some d) : d.toRank = r := by
  simp only [onGrid?] at found
  split at found
  · rename_i lower
    cases found
    exact lower.1
  · split at found
    · rename_i upper
      cases found
      exact upper
    · cases found

theorem toRank_of_search {r : ℕ} {f : Fraction} {power : ℤ} {count : ℕ} {d : Decimal}
    (found : search r f power count = some d) : d.toRank = r := by
  induction count generalizing power with
  | zero => cases found
  | succ count ih =>
      unfold search at found
      split at found
      · rename_i candidate onGrid
        cases found
        exact toRank_of_onGrid onGrid
      · exact ih found

/-- The shortest decimal of a finite double reads back as it. -/
theorem toRank_shortest {r : ℕ} (finite : r < infinityRank) : (shortest r).toRank = r := by
  rcases Nat.eq_zero_or_pos r with rfl | positive
  · rfl
  · simp only [shortest, positive.ne', if_false]
    cases found : search r (fractionOf (scaledOfRank r)) (topPower (fractionOf (scaledOfRank r))) 19
    · exact toRank_exact positive finite
    · exact toRank_of_search found

theorem toRank_le (d : Decimal) : d.toRank ≤ infinityRank := by
  unfold toRank nearestRank
  split
  · exact Nat.zero_le _
  split
  · exact le_rfl
  split
  · exact Nat.zero_le _
  split
  · exact Nat.zero_le _
  · exact min_le_right _ _

end Decimal
end Scriptlet
