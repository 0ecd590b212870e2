import Scriptlet.Proofs.Number.Nearest

/-!
# Numerals

A numeral is digits, or digits, a point and digits. The numeral of a decimal reads
as the nearest double, which has no sign bit, and the plain notation of a finite
double is a numeral that reads back as it.
-/

namespace Scriptlet.Decimal

open Binary64

/-- The characters `cs` are digits, or digits, a point and digits, and write `d`. -/
inductive Numeral : List Char → Decimal → Prop
  | whole {digits : List Char} : digits ≠ [] → (∀ c ∈ digits, c.isDigit = true) →
      Numeral digits ⟨digitsValue digits, 0⟩
  | point {digits fraction : List Char} : digits ≠ [] → (∀ c ∈ digits, c.isDigit = true) →
      fraction ≠ [] → (∀ c ∈ fraction, c.isDigit = true) →
      Numeral (digits ++ '.' :: fraction) ⟨digitsValue (digits ++ fraction), -fraction.length⟩

variable {cs digits : List Char} {d : Decimal}

/-- Digits are split off up to what is no digit. -/
theorem spanDigits_append (inside : ∀ c ∈ digits, c.isDigit = true) (rest : List Char)
    (outside : ∀ c ∈ rest.head?, c.isDigit = false) :
    spanDigits (digits ++ rest) = (digits, rest) := by
  unfold spanDigits
  rw [List.takeWhile_append_of_pos inside, List.dropWhile_append_of_pos inside]
  cases rest with
  | nil => simp
  | cons c rest => simp [outside c rfl]

theorem spanDigits_digits (inside : ∀ c ∈ digits, c.isDigit = true) :
    spanDigits digits = (digits, []) := by
  simpa using spanDigits_append inside [] (by simp)

theorem Numeral.starts (numeral : Numeral cs d) : ∃ c rest, cs = c :: rest ∧ c.isDigit = true := by
  cases numeral with
  | whole nonempty inside | point nonempty inside =>
      obtain ⟨c, rest, rfl⟩ := List.exists_cons_of_ne_nil nonempty
      exact ⟨c, _, rfl, inside c (by simp)⟩

theorem Numeral.readDigits? (numeral : Numeral cs d) : readDigits? cs = some d := by
  unfold Decimal.readDigits?
  cases numeral with
  | whole nonempty inside =>
      simp [spanDigits_digits inside, spanFraction, readPower?, nonempty]
  | @point digits fraction nonempty inside _ inside' =>
      simp [spanDigits_append inside ('.' :: fraction) (by simp), spanFraction,
        spanDigits_digits inside', readPower?, nonempty]

/-- A digit is no letter, so it has no other case. -/
theorem toLower_of_isDigit {c : Char} (digit : c.isDigit = true) : c.toLower = c := by
  simp only [Char.isDigit, Bool.and_eq_true, decide_eq_true_eq] at digit
  unfold Char.toLower
  rw [dif_neg]
  intro upper
  have low := UInt32.le_iff_toNat_le.mp digit.2
  have high := UInt32.le_iff_toNat_le.mp upper.1
  simp only [Char.reduceVal, UInt32.reduceToNat] at low high
  omega

theorem Numeral.readMagnitude? (numeral : Numeral cs d) : readMagnitude? cs = some d.toRank := by
  obtain ⟨c, rest, rfl, digit⟩ := numeral.starts
  have notWord {word : List Char} (letter : word.head?.any Char.isDigit = false) :
      (c :: rest).map Char.toLower ≠ word := by
    rw [List.map_cons, toLower_of_isDigit digit]
    rintro rfl
    simp [digit] at letter
  simp only [Decimal.readMagnitude?]
  rw [if_neg (not_or.mpr ⟨notWord (by decide), notWord (by decide)⟩), if_neg (notWord (by decide)),
    numeral.readDigits?, Option.map_some]

/-- A numeral reads as the nearest double. -/
theorem Numeral.read? (numeral : Numeral cs d) : read? cs = some (ofRank false d.toRank) := by
  obtain ⟨c, rest, same, digit⟩ := numeral.starts
  have unsigned : spanSign cs = (false, cs) := by
    subst same
    unfold spanSign
    split
    · simp_all
    · simp_all
    · rfl
  simp only [Decimal.read?, unsigned, numeral.readMagnitude?, Option.map_some]

theorem digitsValue_eq (cs : List Char) : digitsValue cs = Nat.ofDigitChars 10 cs 0 := rfl

/-- The decimal that the plain notation writes: a power of ten that is not negative
has become zeros. -/
def positional (d : Decimal) : Decimal :=
  if 0 ≤ d.power then ⟨10 ^ d.power.toNat * d.coefficient, 0⟩ else d

private theorem digits_plain {n k : ℕ} :
    ∀ c ∈ List.replicate k '0' ++ Nat.toDigits 10 n, c.isDigit = true := by
  intro c member
  rcases List.mem_append.mp member with zero | digit
  · rw [List.eq_of_mem_replicate zero]
    rfl
  · exact Nat.isDigit_of_mem_toDigits (by decide) (by decide) digit

/-- The plain notation is a numeral. -/
theorem numeral_plain (d : Decimal) : Numeral d.plain d.positional := by
  unfold plain positional
  split
  · have value : digitsValue (Nat.toDigits 10 d.coefficient ++ List.replicate d.power.toNat '0') =
        10 ^ d.power.toNat * d.coefficient := by
      rw [digitsValue_eq, Nat.ofDigitChars_append, Nat.ofDigitChars_ten_toDigits,
        Nat.ofDigitChars_replicate_zero]
    rw [← value]
    refine .whole (by simp [Nat.toDigits_ne_nil]) fun c member => ?_
    rcases List.mem_append.mp member with digit | zero
    · exact Nat.isDigit_of_mem_toDigits (by decide) (by decide) digit
    · rw [List.eq_of_mem_replicate zero]
      rfl
  · rename_i fractional
    obtain ⟨places, same⟩ : ∃ n : ℕ, d.power = -n := ⟨(-d.power).toNat, by omega⟩
    obtain ⟨coefficient, power⟩ := d
    obtain rfl : power = -places := same
    simp only [neg_neg, Int.toNat_natCast] at fractional ⊢
    generalize zeros : places + 1 - (Nat.toDigits 10 coefficient).length = k
    have value : digitsValue (List.replicate k '0' ++ Nat.toDigits 10 coefficient) = coefficient := by
      rw [digitsValue_eq, Nat.ofDigitChars_append, Nat.ofDigitChars_replicate_zero, Nat.mul_zero,
        Nat.ofDigitChars_ten_toDigits]
    have inside := digits_plain (n := coefficient) (k := k)
    have length : places + 1 ≤ (List.replicate k '0' ++ Nat.toDigits 10 coefficient).length := by
      rw [List.length_append, List.length_replicate]
      omega
    generalize List.replicate k '0' ++ Nat.toDigits 10 coefficient = padded at value inside length ⊢
    have point := @Numeral.point (padded.take (padded.length - places))
      (padded.drop (padded.length - places)) (List.length_pos_iff.mp (by simp; omega))
      (fun c member => inside c (List.mem_of_mem_take member))
      (List.length_pos_iff.mp (by simp; omega))
      (fun c member => inside c (List.mem_of_mem_drop member))
    have behind : (padded.drop (padded.length - places)).length = places := by simp; omega
    rwa [List.take_append_drop, value, behind] at point

/-- Plain notation does not change which double is nearest. -/
theorem toRank_positional (finite : d.toRank < infinityRank) : d.positional.toRank = d.toRank := by
  unfold positional
  split
  · rename_i whole
    rcases Nat.eq_zero_or_pos d.coefficient with zero | positive
    · simp [toRank, zero]
    · have below : ¬ 400 < d.power := by
        intro beyond
        rw [toRank, if_neg positive.ne', if_pos beyond] at finite
        exact absurd finite (lt_irrefl _)
      have scaled : 10 ^ d.power.toNat * d.coefficient ≠ 0 := by positivity
      unfold toRank
      rw [if_neg scaled, if_neg (by simp), if_neg (by simp only; omega), if_neg positive.ne',
        if_neg below, if_neg (by omega)]
      have same : (-d.power).toNat = 0 := by omega
      simp [toFraction, same, mul_comm]
  · rfl

/-- The plain notation of a finite magnitude reads back as it. -/
theorem read?_writeMagnitude {r : ℕ} (finite : r < infinityRank) :
    Decimal.read? (writeMagnitude r) = some (ofRank false r) := by
  have back := toRank_shortest finite
  rw [writeMagnitude, (numeral_plain _).read?, toRank_positional (by omega), back]

/-- The plain notation of a finite double reads back as it, sign included. -/
theorem read?_write {x : Float} (finite : rank x < infinityRank) :
    Decimal.read? (write x) = some x := by
  have same := ofRank_rank x finite.le
  unfold write
  cases sign : isNegative x with
  | false =>
      rw [sign] at same
      exact (read?_writeMagnitude finite).trans (congrArg some same)
  | true =>
      rw [sign] at same
      have back := toRank_shortest finite
      simp only [if_true, List.singleton_append, Decimal.read?, spanSign, writeMagnitude,
        (numeral_plain _).readMagnitude?, Option.map_some,
        toRank_positional (d := shortest (rank x)) (by omega), back, same]

end Scriptlet.Decimal
