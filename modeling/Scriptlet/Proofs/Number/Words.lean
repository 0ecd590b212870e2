import Mathlib.Algebra.Order.Floor.Semifield
import Mathlib.Data.Int.ModEq
import Mathlib.Data.Rat.Floor
import Scriptlet.Eval
import Scriptlet.Proofs.Number.Sums

/-!
# Words are exact

The steps from a double to its word lose nothing but the fraction. What is cut toward zero is
an integer that is a double again (`isInteger_truncate`), and so is its remainder modulo
`2 ^ 32` (`IsInteger.remainder`); the sum that makes a negative remainder positive is small
enough to be exact (`IsInteger.residue`). So the word of a finite double is the integer part
of its value, wrapped into the signed range (`toInt_toInt32`). A word made a double gives the
word again, so the bitwise operators on numbers are those on words.
-/

namespace Scriptlet.Binary64

open Decimal (fractionOf)

variable {x y : Float} {negative negative' : Bool} {n k r : ℕ} {f g : Fraction}

/-- The double `x` is the integer with a given sign and magnitude. Zero has both signs. -/
structure IsInteger (x : Float) (negative : Bool) (n : ℕ) : Prop where
  sign : isNegative x = negative
  rankOf : RankOf n (rank x)

/-- The integer of a sign and a magnitude. -/
def signedInt (negative : Bool) (n : ℕ) : ℤ := if negative then -n else n

theorem signedInt_natAbs (i : ℤ) : signedInt (i < 0) i.natAbs = i := by
  simp only [signedInt, decide_eq_true_iff]
  split <;> omega

theorem IsInteger.isFinite (integer : IsInteger x negative n) : x.isFinite = true := by
  rw [isFinite_eq, decide_eq_true_iff]
  exact integer.rankOf.finite

theorem IsInteger.value_eq (integer : IsInteger x negative n) :
    value x = signedInt negative n := by
  rw [Binary64.value_eq integer.rankOf.finite, signedValue, cast_apply, Int.cast_natCast,
    mul_assoc, integer.rankOf.value, integer.sign]
  cases negative <;> simp [signedInt]

/-- The double nearest to a fraction that is an integer is that integer. -/
theorem isInteger_ofRank (isRank : RankOf n r) (den : 0 < f.den) (exact : f.value = n)
    (negative : Bool) : IsInteger (ofRank negative (nearestRank f)) negative n := by
  rw [isRank.nearestRank_eq den exact]
  obtain ⟨sign, magnitude⟩ := rank_ofRank negative isRank.finite.le
  exact ⟨sign, by rwa [magnitude]⟩

theorem isInteger_ofInt {i : ℤ} (small : i.natAbs < 2 ^ 53) :
    IsInteger (ofInt i) (i < 0) i.natAbs := by
  obtain ⟨r, isRank⟩ := exists_rankOf small
  exact isInteger_ofRank isRank Nat.one_pos (by simp [Fraction.value]) _

theorem den_fractionOf_pos (d : Scaled) : 0 < (fractionOf d).den := by
  unfold fractionOf
  positivity

theorem value_fractionOf (d : Scaled) : (fractionOf d).value = d.mantissa * 2 ^ d.exponent := by
  unfold fractionOf Fraction.value
  obtain ⟨k, same | same⟩ := d.exponent.eq_nat_or_neg
  · simp [same]
  · simp [same, div_eq_mul_inv]

/-- The integer part of a double is a double. -/
theorem exists_rankOf_floor (finite : r < infinityRank) :
    ∃ r', RankOf ((fractionOf (scaledOfRank r)).num / (fractionOf (scaledOfRank r)).den) r' := by
  obtain ⟨bound, -⟩ := scaledOfRank_canonical r
  rcases le_or_gt 0 (scaledOfRank r).exponent with whole | fractional
  · refine ⟨r, finite, ?_⟩
    have den : (fractionOf (scaledOfRank r)).den = 1 := by
      have : (-(scaledOfRank r).exponent).toNat = 0 := by omega
      simp [fractionOf, this]
    rw [← value_fractionOf, Fraction.value, den, Nat.div_one, Nat.cast_one, div_one]
  · refine exists_rankOf (lt_of_le_of_lt (Nat.div_le_self _ _) ?_)
    have : (scaledOfRank r).exponent.toNat = 0 := by omega
    simpa [fractionOf, this] using bound

/-- The number without its fraction. -/
def towardZero (v : ℚ) : ℤ := if 0 ≤ v then ⌊v⌋ else ⌈v⌉

theorem towardZero_intCast (i : ℤ) : towardZero i = i := by
  simp [towardZero]

theorem towardZero_signed (den : 0 < f.den) (negative : Bool) :
    towardZero ((if negative then -1 else 1) * f.value) = signedInt negative (f.num / f.den) := by
  have floor : ⌊f.value⌋ = ((f.num / f.den : ℕ) : ℤ) := by
    rw [Fraction.value, ← Int.natCast_floor_eq_floor (by positivity), Nat.floor_div_eq_div]
  have nonneg : 0 ≤ f.value := by unfold Fraction.value; positivity
  cases negative with
  | false => simp [towardZero, signedInt, nonneg, floor]
  | true =>
      rcases nonneg.eq_or_lt with zero | positive
      · rw [← zero, Int.floor_zero] at floor
        simp [towardZero, signedInt, ← zero, ← floor]
      · simp [towardZero, signedInt, positive, Int.ceil_neg, floor]

/-- Truncation cuts off the fraction and nothing else. -/
theorem isInteger_truncate (finite : rank x < infinityRank) :
    ∃ n, IsInteger (truncate x) (isNegative x) n ∧
      signedInt (isNegative x) n = towardZero (value x) := by
  obtain ⟨r, isRank⟩ := exists_rankOf_floor finite
  refine ⟨_, isInteger_ofRank isRank Nat.one_pos (by simp [Fraction.value, magnitude]) _, ?_⟩
  rw [← towardZero_signed (den_fractionOf_pos _), value_eq finite, signedValue, cast_apply,
    Int.cast_natCast, mul_assoc, value_fractionOf]

theorem num_eq (den : 0 < f.den) (exact : f.value = n) : f.num = n * f.den := by
  have positive : (f.den : ℚ) ≠ 0 := by exact_mod_cast den.ne'
  rw [Fraction.value, div_eq_iff positive] at exact
  exact_mod_cast exact

theorem value_mod (den : 0 < f.den) (den' : 0 < g.den) (exact : f.value = n)
    (exact' : g.value = k) : (f.mod g).value = (n % k : ℕ) := by
  have positive : ((f.den * g.den : ℕ) : ℚ) ≠ 0 := by
    exact_mod_cast (Nat.mul_pos den den').ne'
  have scaled : k * g.den * f.den = k * (f.den * g.den) := by ring
  rw [Fraction.value, Fraction.mod, num_eq den exact, num_eq den' exact', scaled, mul_assoc,
    Nat.mul_mod_mul_right, Nat.cast_mul, mul_div_cancel_right₀ _ positive]

/-- The remainder of two integers is an integer. -/
theorem IsInteger.remainder (integer : IsInteger x negative n) (integer' : IsInteger y negative' k)
    (small : n % k < 2 ^ 53) : IsInteger (remainder x y) negative (n % k) := by
  obtain ⟨r, isRank⟩ := exists_rankOf small
  have den := den_fractionOf_pos (magnitude x)
  have den' := den_fractionOf_pos (magnitude y)
  have exact : (fractionOf (magnitude x)).value = n := by
    rw [value_fractionOf]
    exact integer.rankOf.value
  have exact' : (fractionOf (magnitude y)).value = k := by
    rw [value_fractionOf]
    exact integer'.rankOf.value
  rw [Binary64.remainder, integer.sign]
  exact isInteger_ofRank isRank (Nat.mul_pos den den') (value_mod den den' exact exact') _

theorem isInteger_words : IsInteger 4294967296 false (2 ^ 32) := by
  have found : rank 4294967296 = 1055 * 2 ^ 52 := by decide +kernel
  refine ⟨by decide +kernel, ?_, ?_⟩
  · rw [found]
    decide
  · rw [found, scaledOfRank_high (by norm_num)]
    norm_num

/-- The sum that brings up a negative remainder is exact. -/
theorem IsInteger.add_words (integer : IsInteger x true n) (positive : 0 < n)
    (small : n < 2 ^ 32) : IsInteger (x + 4294967296) false (2 ^ 32 - n) := by
  obtain ⟨r, isRank⟩ := exists_rankOf (show 2 ^ 32 - n < 2 ^ 53 by omega)
  have above : 0 < r := isRank.rank_pos (by omega)
  have sum : value x + value 4294967296 = signedValue false r := by
    rw [integer.value_eq, isInteger_words.value_eq, signedValue, cast_apply, Int.cast_natCast,
      mul_assoc, isRank.value, Nat.cast_sub small.le]
    simp only [signedInt, if_true, Bool.false_eq_true, if_false]
    push_cast
    ring
  have words := isInteger_words.rankOf
  obtain ⟨sign, magnitude⟩ := rank_add (integer.rankOf.rank_pos positive) integer.rankOf.finite
    (words.rank_pos (by norm_num)) words.finite above isRank.finite sum
  exact ⟨sign, by rwa [magnitude]⟩

/-- The residue of an integer modulo `2 ^ 32`. A zero may keep a sign. -/
theorem IsInteger.residue (integer : IsInteger x negative n) :
    ∃ negative' k, IsInteger (residue x 4294967296) negative' k ∧ (negative' = false ∨ k = 0) ∧
      (k : ℤ) = signedInt negative n % 2 ^ 32 := by
  have small : n % 2 ^ 32 < 2 ^ 32 := Nat.mod_lt _ (by norm_num)
  have rest := integer.remainder isInteger_words (by omega)
  have magnitude : (4294967296 : Float).abs = 4294967296 := rfl
  simp only [Binary64.residue, magnitude]
  split_ifs with below
  · obtain ⟨sign, above, -⟩ := lt_zero_iff.mp below
    obtain rfl : negative = true := rest.sign.symm.trans sign
    have positive := rest.rankOf.pos above
    refine ⟨false, _, rest.add_words positive small, .inl rfl, ?_⟩
    simp only [signedInt, if_true]
    omega
  · have unsigned : negative = false ∨ n % 2 ^ 32 = 0 := by
      refine or_iff_not_imp_left.mpr fun signed => ?_
      have zero : rank (Binary64.remainder x 4294967296) = 0 := by
        refine Nat.eq_zero_of_not_pos fun positive => below (lt_zero_iff.mpr ?_)
        exact ⟨rest.sign.trans (Bool.eq_true_of_not_eq_false signed), positive,
          rest.rankOf.finite.le⟩
      exact (zero ▸ rest.rankOf).eq_zero
    refine ⟨negative, _, rest, unsigned, ?_⟩
    cases negative with
    | false => simp [signedInt]
    | true =>
        have zero := unsigned.resolve_left (by decide)
        simp only [signedInt, if_true]
        omega

/-- The word of a finite double is its integer part, wrapped into the signed range. -/
theorem toInt_toInt32 (finite : x.isFinite = true) :
    (toInt32 x).toInt = (towardZero (value x)).bmod (2 ^ 32) := by
  have bounded : rank x < infinityRank := by rwa [isFinite_eq, decide_eq_true_iff] at finite
  obtain ⟨n, integer, truncated⟩ := isInteger_truncate bounded
  obtain ⟨negative, k, rest, unsigned, wrapped⟩ := integer.residue
  rw [← rest.sign] at unsigned
  have word := toNat_toUInt32 rest.rankOf (by omega) unsigned
  rw [toInt32, if_pos finite, ← truncated, ← Int.emod_bmod, Nat.cast_pow, Nat.cast_ofNat, ← wrapped,
    ← word]
  exact BitVec.toInt_eq_toNat_bmod _

theorem isInteger_ofInt32 (n : Int32) : IsInteger (ofInt32 n) (n.toInt < 0) n.toInt.natAbs := by
  have := n.le_toInt
  have := n.toInt_lt
  exact isInteger_ofInt (by omega)

theorem value_ofInt32 (n : Int32) : value (ofInt32 n) = n.toInt := by
  rw [(isInteger_ofInt32 n).value_eq, signedInt_natAbs]

/-- A word made a double is that word. -/
theorem toInt32_ofInt32 (n : Int32) : toInt32 (ofInt32 n) = n := by
  rw [← Int32.toInt_inj, toInt_toInt32 (isInteger_ofInt32 n).isFinite, value_ofInt32,
    towardZero_intCast]
  exact n.toInt_bmod

/-- An operator that takes two numbers as words: it gives the number of a word, and it is
commutative and associative. -/
structure ActsOnWords (op : BinaryOp) (word : Int32 → Int32 → Int32) : Prop where
  result (x y : Float) : ∃ z : Float, op.apply (.num x) (.num y) = .ok (.num z) ∧
    z.isFinite = true ∧ (∃ n : ℤ, value z = n ∧ -2 ^ 31 ≤ n ∧ n < 2 ^ 31) ∧
    toInt32 z = word (toInt32 x) (toInt32 y)
  comm (x y : Float) : op.apply (.num x) (.num y) = op.apply (.num y) (.num x)
  assoc (x y z : Float) :
    (do op.apply (← op.apply (.num x) (.num y)) (.num z)) =
      (do op.apply (.num x) (← op.apply (.num y) (.num z)))

/-- An operator acts on words if it goes through them and is commutative and associative
there. -/
theorem actsOnWords {op : BinaryOp} {word : Int32 → Int32 → Int32}
    (apply_eq : ∀ x y, op.apply (.num x) (.num y) =
      .ok (.num (ofInt32 (word (toInt32 x) (toInt32 y)))))
    (comm : ∀ a b, word a b = word b a)
    (assoc : ∀ a b c, word (word a b) c = word a (word b c)) : ActsOnWords op word where
  result x y := by
    refine ⟨_, apply_eq x y, (isInteger_ofInt32 _).isFinite, ?_, toInt32_ofInt32 _⟩
    exact ⟨_, value_ofInt32 _, Int32.le_toInt _, Int32.toInt_lt _⟩
  comm x y := by rw [apply_eq, apply_eq, comm]
  assoc x y z := by
    simp only [apply_eq]
    change op.apply (.num (ofInt32 _)) (.num z) = op.apply (.num x) (.num (ofInt32 _))
    rw [apply_eq, apply_eq, toInt32_ofInt32, toInt32_ofInt32, assoc]

/-- The word of a finite double is the one integer of the signed range that is congruent to
its integer part, every other double has the word zero, and words are doubles that keep their
word. So `and` and `or` of numbers are those of words. -/
theorem toInt32_exact :
    (∀ x : Float, x.isFinite = true → ∀ n : ℤ, (toInt32 x).toInt = n ↔
      -2 ^ 31 ≤ n ∧ n < 2 ^ 31 ∧ n ≡ towardZero (value x) [ZMOD 2 ^ 32]) ∧
    (∀ x : Float, x.isFinite = false → toInt32 x = 0) ∧
    (∀ n : Int32, (ofInt32 n).isFinite = true ∧ value (ofInt32 n) = n.toInt ∧
      toInt32 (ofInt32 n) = n) ∧
    ActsOnWords .and (· &&& ·) ∧ ActsOnWords .or (· ||| ·) := by
  refine ⟨fun x finite n => ?_, fun x infinite => ?_, fun n => ?_, ?_, ?_⟩
  · rw [toInt_toInt32 finite, Int.bmod_eq_iff (by norm_num), Int.modEq_comm, Int.modEq_iff_dvd]
    norm_num
  · simp [toInt32, infinite]
  · exact ⟨(isInteger_ofInt32 n).isFinite, value_ofInt32 n, toInt32_ofInt32 n⟩
  · exact actsOnWords (fun _ _ => rfl) Int32.and_comm Int32.and_assoc
  · exact actsOnWords (fun _ _ => rfl) Int32.or_comm Int32.or_assoc

/-- A negative number beyond the words, with a fraction, and an infinity. -/
theorem belowWords_exact : (-4294967297.5 : Float).isFinite = true ∧
    value (-4294967297.5) = -4294967297.5 ∧ (toInt32 (-4294967297.5)).toInt = -1 ∧
    (-1 / 0 : Float).isFinite = false ∧ toInt32 (-1 / 0) = 0 := by
  have finite : (-4294967297.5 : Float).isFinite = true := by decide +kernel
  have infinite : (-1 / 0 : Float).isFinite = false := by decide +kernel
  have number : value (-4294967297.5) = -4294967297.5 := by
    have unpacked : (-4294967297.5 : Float).toModel.unpack =
        .finite .negative 4503599628943360 (-20) (by decide) := by rfl
    rw [value, unpacked]
    norm_num [Float.Model.UnpackedFloat.Sign.apply]
  have truncated : towardZero (-4294967297.5) = -4294967297 := by
    norm_num [towardZero, Int.ceil_eq_iff]
  refine ⟨finite, number, ?_, infinite, toInt32_exact.2.1 _ infinite⟩
  refine (toInt32_exact.1 _ finite _).mpr ⟨by decide, by decide, ?_⟩
  rw [number, truncated]
  decide

end Scriptlet.Binary64
