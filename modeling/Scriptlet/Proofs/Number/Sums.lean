import Mathlib.Tactic.Ring
import Scriptlet.Proofs.Number.Nearest

/-!
# Sums and integer parts of doubles

Rounding leaves alone what is the value of a double: shifting its mantissa to the exponent
of the format drops only zeros (`shiftToExponent_exact`). So a sum of two doubles that is the
value of a double is that double (`rank_add`), and the word cast from a double that is a
small natural number is that number (`toNat_toUInt32`).
-/

namespace Scriptlet.Binary64

open Float.Model (Format UnpackedFloat totalExponent)
open Float.Model.UnpackedFloat (Sign ExtendedMantissa decreaseExponent shiftToExponent
  shiftToTargetExponent roundWithAccuracy roundToInt)

variable {m m' : ℕ} {e e' : ℤ}

theorem shiftRight_exact (m k : ℕ) :
    (⟨m * 2 ^ k, false, false⟩ : ExtendedMantissa) >>> k = ⟨m, false, false⟩ := by
  change Nat.repeat ExtendedMantissa.shiftRightOne k _ = _
  induction k generalizing m with
  | zero => simp [Nat.repeat]
  | succ k ih =>
      have doubled : m * 2 ^ (k + 1) = m * 2 * 2 ^ k := by rw [pow_succ]; ring
      rw [Nat.repeat, doubled, ih]
      simp [ExtendedMantissa.shiftRightOne]

/-- The mantissa of one value in finer units. -/
theorem mantissa_eq (finer : e ≤ e') (same : (m : ℚ) * 2 ^ e = m' * 2 ^ e') :
    m = m' * 2 ^ (e' - e).toNat := by
  have power : (2 : ℚ) ^ e' = 2 ^ (e' - e).toNat * 2 ^ e := by
    rw [← zpow_natCast, ← zpow_add₀ (by norm_num)]
    congr 1
    omega
  rw [power, ← mul_assoc] at same
  have scaled := mul_right_cancel₀ (zpow_ne_zero e (by norm_num)) same
  exact_mod_cast scaled

theorem shiftToExponent_exact (finer : e ≤ e') (same : (m : ℚ) * 2 ^ e = m' * 2 ^ e') :
    shiftToExponent m e .exact e' = (⟨m', false, false⟩, e') := by
  simp only [shiftToExponent, ExtendedMantissa.ofMantissaAndAccuracy, mantissa_eq finer same,
    shiftRight_exact, Prod.mk.injEq, true_and]
  omega

/-- Decreasing an exponent keeps the value. -/
theorem decreaseExponent_exact (m : ℕ) (e e' : ℤ) : (decreaseExponent m e e').2 = min e e' ∧
    ((decreaseExponent m e e').1 : ℚ) * 2 ^ min e e' = m * 2 ^ e := by
  have least : e - ((e - e').toNat : ℤ) = min e e' := by omega
  refine ⟨least, ?_⟩
  simp only [decreaseExponent, Nat.shiftLeft_eq]
  push_cast
  rw [mul_assoc, ← zpow_natCast, ← zpow_add₀ (by norm_num)]
  congr 2
  omega

theorem log2_mul_two_pow (positive : 0 < m) (k : ℕ) : (m * 2 ^ k).log2 = m.log2 + k := by
  induction k with
  | zero => simp
  | succ k ih =>
      have doubled : m * 2 ^ (k + 1) = 2 * (m * 2 ^ k) := by rw [pow_succ]; ring
      rw [doubled, Nat.log2_two_mul (by positivity), ih]
      omega

/-- The place of the leading bit depends on the value only. -/
theorem totalExponent_congr (positive : 0 < m') (same : (m : ℚ) * 2 ^ e = m' * 2 ^ e') :
    totalExponent m e = totalExponent m' e' := by
  unfold totalExponent
  rcases le_total e e' with finer | coarser
  · rw [mantissa_eq finer same, log2_mul_two_pow positive]
    omega
  · have scaled := mantissa_eq coarser same.symm
    have positive' : 0 < m := by
      refine Nat.pos_of_ne_zero fun zero => ?_
      rw [zero, Nat.zero_mul] at scaled
      omega
    rw [scaled, log2_mul_two_pow positive']
    omega

/-- `m * 2 ^ e` is the value of the double of rank `r`. -/
abbrev Values (r : ℕ) (m : ℕ) (e : ℤ) : Prop :=
  (m : ℚ) * 2 ^ e = (scaledOfRank r).mantissa * 2 ^ (scaledOfRank r).exponent

variable {r : ℕ}

/-- The format keeps the value of a double at the exponent of that double. -/
theorem targetExponent_eq (positive : 0 < r) (same : Values r m e) :
    Format.binary64.targetExponent (totalExponent m e) = (scaledOfRank r).exponent := by
  obtain ⟨bound, least, normal, -⟩ := scaledOfRank_canonical r
  have mantissa := mantissa_scaledOfRank_pos positive
  have bits : (scaledOfRank r).mantissa.log2 < 53 := (Nat.log2_lt mantissa.ne').mpr bound
  have normalBits : (scaledOfRank r).exponent = -1074 ∨ 52 ≤ (scaledOfRank r).mantissa.log2 :=
    normal.imp_right (Nat.le_log2 mantissa.ne').mpr
  have target (t : ℤ) : Format.binary64.targetExponent t = max (t - 53) (-1074) := rfl
  rw [totalExponent_congr mantissa same, target, totalExponent]
  omega

theorem shiftToTargetExponent_exact (positive : 0 < r) (finer : e ≤ (scaledOfRank r).exponent)
    (same : Values r m e) : shiftToTargetExponent Format.binary64 m e .exact =
      (⟨(scaledOfRank r).mantissa, false, false⟩, (scaledOfRank r).exponent) := by
  simp only [shiftToTargetExponent, targetExponent_eq positive same]
  exact shiftToExponent_exact finer same

/-- Rounding leaves the value of a double alone. -/
theorem round_exact (positive : 0 < r) (sign : Sign) (same : Values r m e) :
    UnpackedFloat.round Format.binary64 sign m e = .finite sign (scaledOfRank r).mantissa
      (scaledOfRank r).exponent (mantissa_scaledOfRank_pos positive) := by
  obtain ⟨least, kept⟩ := decreaseExponent_exact m e (scaledOfRank r).exponent
  have rounded : (⟨(scaledOfRank r).mantissa, false, false⟩ : ExtendedMantissa).roundedMantissa =
      (scaledOfRank r).mantissa := rfl
  -- The mantissa is shifted twice, and the second shift finds it in place.
  have first := shiftToTargetExponent_exact positive (min_le_right _ _) (kept.trans same)
  have second := shiftToTargetExponent_exact positive le_rfl rfl
  unfold UnpackedFloat.round roundWithAccuracy
  dsimp only
  rw [targetExponent_eq positive same, least, first]
  dsimp only
  rw [rounded, second]
  exact dif_neg (mantissa_scaledOfRank_pos positive).ne'

/-- The number that a finite double stands for. -/
def value (x : Float) : ℚ :=
  match x.toModel.unpack with
  | .finite sign m e _ => sign.apply m * 2 ^ e
  | _ => 0

/-- The value of a sign and a rank. -/
def signedValue (negative : Bool) (r : ℕ) : ℚ :=
  (signOf negative).apply (scaledOfRank r).mantissa * 2 ^ (scaledOfRank r).exponent

variable {x y : Float} {negative : Bool}

theorem value_eq (finite : rank x < infinityRank) :
    value x = signedValue (isNegative x) (rank x) := by
  unfold value signedValue
  rw [unpack_toModel]
  rcases Nat.eq_zero_or_pos (rank x) with zero | positive
  · rw [zero, decode_zero, scaledOfRank_low (by decide)]
    cases isNegative x <;> simp [signOf, Sign.apply]
  · rw [decode_finite _ positive finite]

theorem cast_apply (negative : Bool) (m : ℤ) :
    ((signOf negative).apply m : ℚ) = (if negative then -1 else 1) * m := by
  cases negative <;> simp [signOf, Sign.apply]

/-- A sum of mantissas that is the value of a double gives that double. -/
theorem normalize_exact {n : ℤ} (positive : 0 < r) (zeroSign : Sign)
    (same : (n : ℚ) * 2 ^ e = signedValue negative r) :
    UnpackedFloat.normalize Format.binary64 n e zeroSign = .finite (signOf negative)
      (scaledOfRank r).mantissa (scaledOfRank r).exponent (mantissa_scaledOfRank_pos positive) := by
  have mantissa : (0 : ℚ) < (scaledOfRank r).mantissa := by
    exact_mod_cast mantissa_scaledOfRank_pos positive
  have scale : (0 : ℚ) < 2 ^ e := by positivity
  rw [signedValue, cast_apply, Int.cast_natCast] at same
  cases negative with
  | false =>
      rw [if_neg Bool.false_ne_true, one_mul] at same
      have above : 0 < n := by
        have : (0 : ℚ) < n * 2 ^ e := same ▸ by positivity
        exact_mod_cast pos_of_mul_pos_left this scale.le
      have cast : ((n.toNat : ℕ) : ℚ) = n := by exact_mod_cast Int.toNat_of_nonneg above.le
      have rounds : UnpackedFloat.normalize Format.binary64 n e zeroSign =
          UnpackedFloat.round Format.binary64 .positive n.toNat e := by
        simp only [UnpackedFloat.normalize, Int.compare_eq_gt.mpr above]
      rw [rounds]
      refine round_exact positive .positive ?_
      rw [Values, cast, same]
  | true =>
      rw [if_pos rfl, neg_one_mul, neg_mul] at same
      have below : n < 0 := by
        have : (0 : ℚ) < -n * 2 ^ e := by
          rw [neg_mul, same, neg_neg]
          positivity
        have := pos_of_mul_pos_left this scale.le
        have : (n : ℚ) < 0 := by linarith
        exact_mod_cast this
      have cast : (((-n).toNat : ℕ) : ℚ) = -n := by
        exact_mod_cast Int.toNat_of_nonneg (by omega : 0 ≤ -n)
      have rounds : UnpackedFloat.normalize Format.binary64 n e zeroSign =
          UnpackedFloat.round Format.binary64 .negative (-n).toNat e := by
        simp only [UnpackedFloat.normalize, Int.compare_eq_lt.mpr below]
      rw [rounds]
      refine round_exact positive .negative ?_
      rw [Values, cast, neg_mul, same, neg_neg]

/-- A sum of doubles that is the value of a double is that double. -/
theorem rank_add (nonzero : 0 < rank x) (finite : rank x < infinityRank) (nonzero' : 0 < rank y)
    (finite' : rank y < infinityRank) (positive : 0 < r) (number : r < infinityRank)
    (sum : value x + value y = signedValue negative r) :
    isNegative (x + y) = negative ∧ rank (x + y) = r := by
  refine rank_of_pack number.le ?_
  change Float.Model.pack (UnpackedFloat.add _ x.toModel.unpack y.toModel.unpack) = _
  congr 1
  rw [unpack_toModel, unpack_toModel, decode_finite _ nonzero finite,
    decode_finite _ nonzero' finite', decode_finite _ positive number]
  refine normalize_exact positive _ ?_
  rw [← sum, value_eq finite, value_eq finite', signedValue, signedValue]
  generalize scaledOfRank (rank x) = d, scaledOfRank (rank y) = d'
  -- Both mantissas are brought to the smaller exponent before they are added.
  have first := (decreaseExponent_exact d.mantissa d.exponent (min d.exponent d'.exponent)).2
  have second := (decreaseExponent_exact d'.mantissa d'.exponent (min d.exponent d'.exponent)).2
  rw [min_eq_right (min_le_left _ _)] at first
  rw [min_eq_right (min_le_right _ _)] at second
  simp only [decreaseExponent] at first second
  simp only [Int.cast_add, cast_apply, Int.cast_natCast, mul_assoc, add_mul, first, second]

/-- The double of rank `r` is the natural number `n`. -/
structure RankOf (n r : ℕ) : Prop where
  finite : r < infinityRank
  value : ((scaledOfRank r).mantissa : ℚ) * 2 ^ (scaledOfRank r).exponent = n

variable {n : ℕ}

theorem rankOf_zero : RankOf 0 0 := ⟨by decide, by simp [scaledOfRank]⟩

namespace RankOf

theorem eq_zero (isRank : RankOf n 0) : n = 0 := by
  have value := isRank.value
  rw [rankOf_zero.value] at value
  exact_mod_cast value.symm

theorem pos (isRank : RankOf n r) (positive : 0 < r) : 0 < n := by
  have mantissa : (0 : ℚ) < (scaledOfRank r).mantissa := by
    exact_mod_cast mantissa_scaledOfRank_pos positive
  have : (0 : ℚ) < n := isRank.value ▸ by positivity
  exact_mod_cast this

theorem rank_pos (isRank : RankOf n r) (positive : 0 < n) : 0 < r := by
  refine Nat.pos_of_ne_zero fun zero => ?_
  rw [zero] at isRank
  exact positive.ne' isRank.eq_zero

end RankOf

/-- Natural numbers of up to 53 bits are doubles. -/
theorem exists_rankOf (small : n < 2 ^ 53) : ∃ r, RankOf n r := by
  rcases Nat.eq_zero_or_pos n with rfl | positive
  · exact ⟨0, rankOf_zero⟩
  have bits : n.log2 ≤ 52 := by
    have := (Nat.log2_lt positive.ne').mpr small
    omega
  have lower : 2 ^ n.log2 * 2 ^ (52 - n.log2) ≤ n * 2 ^ (52 - n.log2) :=
    Nat.mul_le_mul_right _ (Nat.log2_self_le positive.ne')
  have upper : n * 2 ^ (52 - n.log2) < 2 ^ (n.log2 + 1) * 2 ^ (52 - n.log2) :=
    Nat.mul_lt_mul_of_pos_right Nat.lt_log2_self (by positivity)
  rw [← pow_add, show n.log2 + (52 - n.log2) = 52 by omega] at lower
  rw [← pow_add, show n.log2 + 1 + (52 - n.log2) = 53 by omega] at upper
  -- The leading bit is shifted to its place and left out of the rank.
  generalize shifted : n * 2 ^ (52 - n.log2) = mantissa at lower upper
  have scaled : scaledOfRank ((n.log2 + 1022) * 2 ^ 52 + mantissa) =
      ⟨mantissa, (n.log2 : ℤ) - 52⟩ := by
    rw [scaledOfRank_high (by omega)]
    simp only [Scaled.mk.injEq]
    omega
  refine ⟨(n.log2 + 1022) * 2 ^ 52 + mantissa, ⟨by unfold infinityRank; omega, ?_⟩⟩
  rw [scaled, ← shifted]
  push_cast
  rw [mul_assoc, ← zpow_natCast, ← zpow_add₀ (by norm_num)]
  have cancel : ((52 - n.log2 : ℕ) : ℤ) + ((n.log2 : ℤ) - 52) = 0 := by omega
  rw [cancel, zpow_zero, mul_one]

/-- A fraction that is a natural number is read as that number. -/
theorem RankOf.nearestRank_eq (isRank : RankOf n r) {f : Fraction} (den : 0 < f.den)
    (exact : f.value = n) : nearestRank f = r := by
  rcases Nat.eq_zero_or_pos r with rfl | positive
  · have nonzero : (f.den : ℚ) ≠ 0 := by exact_mod_cast den.ne'
    rw [isRank.eq_zero, Fraction.value, Nat.cast_zero, div_eq_zero_iff,
      or_iff_left nonzero] at exact
    have zero : f.num = 0 := by exact_mod_cast exact
    rw [nearestRank, if_pos zero]
  · exact Binary64.nearestRank_eq den positive isRank.finite (exact.trans isRank.value.symm)

theorem roundToInt_exact (sign : Sign) (same : (m : ℚ) * 2 ^ e = n) :
    roundToInt sign m e = sign.apply n := by
  obtain ⟨least, kept⟩ := decreaseExponent_exact m e 0
  have whole := shiftToExponent_exact (min_le_right e 0)
    (kept.trans (same.trans (by rw [zpow_zero, mul_one])))
  simp only [roundToInt, least, whole]

/-- The word cast from a small natural number is that number. -/
theorem toNat_toUInt32 (isRank : RankOf n (rank x)) (small : n < 2 ^ 32)
    (unsigned : isNegative x = false ∨ n = 0) : x.toUInt32.toNat = n := by
  change (UInt32.ofNatClamp (UnpackedFloat.toInt 0 _ x.toModel.unpack).toNat).toNat = n
  have integer (limit : ℤ) : UnpackedFloat.toInt 0 limit x.toModel.unpack = n := by
    rw [unpack_toModel]
    rcases Nat.eq_zero_or_pos (rank x) with zero | positive
    · rw [zero] at isRank
      rw [zero, decode_zero, isRank.eq_zero]
      rfl
    · have unsigned : isNegative x = false := unsigned.resolve_right (isRank.pos positive).ne'
      rw [decode_finite _ positive isRank.finite, unsigned]
      exact roundToInt_exact .positive isRank.value
  rw [integer, Int.toNat_natCast, UInt32.toNat_ofNatClamp_of_lt small]

end Scriptlet.Binary64
