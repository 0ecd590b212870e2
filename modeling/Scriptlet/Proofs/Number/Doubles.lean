import Mathlib.Algebra.Group.Nat.Defs
import Scriptlet.Number.Binary64

/-!
# Doubles as signed ranks

A double that is a number is determined by its sign and its rank, and two such
doubles compare as their signed ranks do: zeros of both signs are equal, and what
is not a number is equal to nothing. `decode` says what the bits of a sign and a
rank stand for; everything else is read off `unpack_eq_decode` and
`toNat_pack_decode`.
-/

namespace Scriptlet.Binary64

open Float.Model (Format UnpackedFloat)
open Float.Model.UnpackedFloat (Sign unpackMantissa unpackExponent unpackSign packComponents)

private theorem toNat_unpackMantissa (b : BitVec Format.binary64.numBits) :
    (unpackMantissa b).toNat = b.toNat % 2 ^ 52 := by
  simp [unpackMantissa, Nat.shiftRight_eq_div_pow]

private theorem toNat_unpackExponent (b : BitVec Format.binary64.numBits) :
    (unpackExponent b).toNat = b.toNat / 2 ^ 52 % 2 ^ 11 := by
  simp [unpackExponent, Nat.shiftRight_eq_div_pow]

private theorem toNat_unpackSign (b : BitVec Format.binary64.numBits) :
    (unpackSign b).toNat = b.toNat / 2 ^ 63 := by
  have bound : b.toNat < 2 ^ 64 := b.isLt
  unfold unpackSign
  simp only [BitVec.toNat_cast, BitVec.extractLsb_toNat, Nat.shiftRight_eq_div_pow]
  omega

private theorem toNat_packComponents (s : Sign) (e : BitVec 11) (m : BitVec 52) :
    (packComponents Format.binary64 s e m).toNat =
      s.toBitVec.toNat * 2 ^ 63 + e.toNat * 2 ^ 52 + m.toNat := by
  simp only [packComponents, BitVec.toNat_append]
  rw [← Nat.shiftLeft_add_eq_or_of_lt m.isLt, ← Nat.shiftLeft_add_eq_or_of_lt e.isLt]
  simp only [Nat.shiftLeft_eq]
  omega

/-- The sign of a number whose sign bit is set or not. -/
def signOf (negative : Bool) : Sign := if negative then .negative else .positive

theorem scaledOfRank_low {r : Nat} (low : r < 2 ^ 52) : scaledOfRank r = ⟨r, -1074⟩ := if_pos low

theorem scaledOfRank_high {r : Nat} (high : 2 ^ 52 ≤ r) :
    scaledOfRank r = ⟨2 ^ 52 + r % 2 ^ 52, (r / 2 ^ 52 : Nat) - 1075⟩ :=
  if_neg (Nat.not_lt.mpr high)

theorem mantissa_scaledOfRank_pos {r : Nat} (positive : 0 < r) :
    0 < (scaledOfRank r).mantissa := by
  unfold scaledOfRank
  split <;> simp only <;> omega

/-- What a sign and a rank stand for. -/
def decode (negative : Bool) (r : Nat) : UnpackedFloat :=
  if h : r = 0 then .zero (signOf negative)
  else if r < infinityRank then
    .finite (signOf negative) (scaledOfRank r).mantissa (scaledOfRank r).exponent
      (mantissa_scaledOfRank_pos (Nat.pos_of_ne_zero h))
  else if r = infinityRank then .infinity (signOf negative)
  else .notANumber

theorem decode_zero (negative : Bool) : decode negative 0 = .zero (signOf negative) := rfl

theorem decode_finite (negative : Bool) {r : Nat} (positive : 0 < r) (finite : r < infinityRank) :
    decode negative r = .finite (signOf negative) (scaledOfRank r).mantissa
      (scaledOfRank r).exponent (mantissa_scaledOfRank_pos positive) := by
  rw [decode, dif_neg (Nat.ne_of_gt positive), if_pos finite]

theorem decode_infinity (negative : Bool) :
    decode negative infinityRank = .infinity (signOf negative) := rfl

theorem decode_beyond (negative : Bool) {r : Nat} (beyond : infinityRank < r) :
    decode negative r = .notANumber := by
  have positive : r ≠ 0 := Nat.ne_of_gt (Nat.lt_of_le_of_lt (Nat.zero_le _) beyond)
  rw [decode, dif_neg positive, if_neg (Nat.lt_asymm beyond), if_neg (Nat.ne_of_gt beyond)]

private theorem kinds_of_le {r : Nat} (number : r ≤ infinityRank) :
    r = 0 ∨ 0 < r ∧ r < infinityRank ∨ r = infinityRank := by
  omega

private theorem finite_congr {s s' : Sign} {m m' : Nat} {e e' : Int} {positive : 0 < m}
    {positive' : 0 < m'} (sign : s = s') (mantissa : m = m') (exponent : e = e') :
    UnpackedFloat.finite s m e positive = .finite s' m' e' positive' := by
  subst sign mantissa exponent
  rfl

private theorem sign_unpackSign (b : BitVec Format.binary64.numBits) :
    Sign.ofBitVec (unpackSign b) = signOf (2 ^ 63 ≤ b.toNat) := by
  have bound : b.toNat < 2 ^ 64 := b.isLt
  unfold Sign.ofBitVec signOf
  simp only [← BitVec.toNat_inj, toNat_unpackSign, BitVec.toNat_ofNat, decide_eq_true_eq]
  split <;> split <;> first | rfl | omega

private theorem toNat_implicit (m : BitVec 52) : (1#1 ++ m).toNat = 2 ^ 52 + m.toNat := by
  rw [BitVec.toNat_append, ← Nat.shiftLeft_add_eq_or_of_lt m.isLt]
  simp [Nat.shiftLeft_eq]

theorem unpack_eq_decode (b : BitVec Format.binary64.numBits) :
    UnpackedFloat.unpack Format.binary64 b = decode (2 ^ 63 ≤ b.toNat) (b.toNat % 2 ^ 63) := by
  have bound : b.toNat < 2 ^ 64 := b.isLt
  have mantissa := toNat_unpackMantissa b
  have exponent := toNat_unpackExponent b
  have full : unpackExponent b = -1#_ ↔ (unpackExponent b).toNat = 2047 := by
    rw [← BitVec.toNat_inj]
    rfl
  have least : unpackExponent b = 0#_ ↔ (unpackExponent b).toNat = 0 := by
    rw [← BitVec.toNat_inj]
    rfl
  have none : unpackMantissa b = 0#_ ↔ (unpackMantissa b).toNat = 0 := by
    rw [← BitVec.toNat_inj]
    rfl
  have sign := sign_unpackSign b
  generalize ranked : b.toNat % 2 ^ 63 = r
  unfold UnpackedFloat.unpack
  dsimp only
  by_cases topmost : (unpackExponent b).toNat = 2047
  · rw [if_pos (full.mpr topmost)]
    by_cases empty : (unpackMantissa b).toNat = 0
    · obtain rfl : r = infinityRank := by unfold infinityRank; omega
      rw [if_pos (none.mpr empty), decode_infinity, sign]
    · rw [if_neg (mt none.mp empty), decode_beyond _ (by unfold infinityRank; omega)]
  · rw [if_neg (mt full.mp topmost)]
    have finite : r < infinityRank := by unfold infinityRank; omega
    by_cases lowest : (unpackExponent b).toNat = 0
    · rw [if_pos (least.mpr lowest)]
      by_cases empty : (unpackMantissa b).toNat = 0
      · obtain rfl : r = 0 := by omega
        rw [dif_pos (none.mpr empty), decode_zero, sign]
      · rw [dif_neg (mt none.mp empty), decode_finite _ (by omega) finite]
        have low := scaledOfRank_low (r := r) (by omega)
        refine finite_congr sign ?_ ?_
        · rw [low, mantissa]
          dsimp only
          omega
        · rw [low, lowest]
          rfl
    · rw [if_neg (mt least.mp lowest), decode_finite _ (by omega) finite]
      have high := scaledOfRank_high (r := r) (by omega)
      refine finite_congr sign ?_ ?_
      · rw [high, toNat_implicit, mantissa]
        dsimp only
        omega
      · rw [high, exponent]
        change ((_ : Nat) : Int) - (1023 + 52 : Nat) = ((r / 2 ^ 52 : Nat) : Int) - 1075
        omega

private theorem toNat_signOf (negative : Bool) :
    (signOf negative).toBitVec.toNat = if negative then 1 else 0 := by
  cases negative <;> rfl

private theorem log2_mantissa {m : Nat} (positive : 0 < m) (bound : m < 2 ^ 53) :
    m.log2 + 1 = Format.binary64.mantissaBits ↔ 2 ^ 52 ≤ m := by
  have upper : m.log2 < 53 := (Nat.log2_lt (by omega)).mpr bound
  rw [← Nat.le_log2 (by omega)]
  change m.log2 + 1 = 53 ↔ 52 ≤ m.log2
  omega

/-- The bits of a number by sign and rank. -/
def code (negative : Bool) (r : Nat) : Nat := if negative then 2 ^ 63 + r else r

private theorem pack_finite (s : Sign) {m : Nat} (e : Int) (positive : 0 < m) :
    UnpackedFloat.pack Format.binary64 (.finite s m e positive) =
      if 2 ^ 11 ≤ (e + 1023 + 52).toNat + 1 then UnpackedFloat.packedInfinity _ s
      else if m.log2 + 1 = Format.binary64.mantissaBits then
        packComponents _ s (BitVec.ofNat 11 (e + 1023 + 52).toNat) (BitVec.ofNat 52 m)
      else packComponents _ s 0#11 (BitVec.ofNat 52 m) := rfl

theorem toNat_pack_decode {negative : Bool} {r : Nat} (number : r ≤ infinityRank) :
    (UnpackedFloat.pack Format.binary64 (decode negative r)).toNat = code negative r := by
  have components (e : BitVec 11) (m : BitVec 52) (whole : e.toNat * 2 ^ 52 + m.toNat = r) :
      (packComponents Format.binary64 (signOf negative) e m).toNat = code negative r := by
    rw [toNat_packComponents, toNat_signOf, code, ← whole]
    cases negative <;> simp [Nat.add_assoc]
  rcases kinds_of_le number with rfl | ⟨positive, finite⟩ | rfl
  · exact components 0 0 rfl
  · rw [decode_finite _ positive finite, pack_finite]
    unfold infinityRank at finite
    by_cases low : r < 2 ^ 52
    · have notNormal := log2_mantissa positive (by omega)
      rw [scaledOfRank_low low]
      dsimp only
      rw [if_neg (by decide), if_neg (by omega)]
      refine components _ _ ?_
      simp only [BitVec.toNat_ofNat]
      omega
    · have normal := log2_mantissa (m := 2 ^ 52 + r % 2 ^ 52) (by omega) (by omega)
      rw [scaledOfRank_high (Nat.not_lt.mp low)]
      dsimp only
      rw [if_neg (by omega), if_pos (by omega)]
      refine components _ _ ?_
      simp only [BitVec.toNat_ofNat]
      omega
  · exact components (-1#11) 0 rfl

/-- A rank with a sign. Both zeros have the same. -/
def signedRank (negative : Bool) (r : Nat) : Int := if negative then -(r : Int) else r

/-- The exponent decides between two ranks, and then the mantissa. -/
private theorem scaledOfRank_lt {r r' : Nat} (less : r < r') :
    (scaledOfRank r).exponent < (scaledOfRank r').exponent ∨
      (scaledOfRank r).exponent = (scaledOfRank r').exponent ∧
        (scaledOfRank r).mantissa < (scaledOfRank r').mantissa := by
  unfold scaledOfRank
  split <;> split
  · exact .inr ⟨rfl, less⟩
  all_goals
    simp only
    omega

private theorem compare_scaledOfRank (r r' : Nat) :
    (compare (scaledOfRank r).exponent (scaledOfRank r').exponent).then
      (compare (scaledOfRank r).mantissa (scaledOfRank r').mantissa) = compare r r' := by
  rcases Nat.lt_trichotomy r r' with less | rfl | more
  · rw [Nat.compare_eq_lt.mpr less]
    rcases scaledOfRank_lt less with exponent | ⟨exponent, mantissa⟩
    · rw [Int.compare_eq_lt.mpr exponent]
      rfl
    · rw [Int.compare_eq_eq.mpr exponent, Nat.compare_eq_lt.mpr mantissa]
      rfl
  · rw [Int.compare_eq_eq.mpr rfl, Nat.compare_eq_eq.mpr rfl, Nat.compare_eq_eq.mpr rfl]
    rfl
  · rw [Nat.compare_eq_gt.mpr more]
    rcases scaledOfRank_lt more with exponent | ⟨exponent, mantissa⟩
    · rw [Int.compare_eq_gt.mpr exponent]
      rfl
    · rw [Int.compare_eq_eq.mpr exponent.symm, Nat.compare_eq_gt.mpr mantissa]
      rfl

section

variable {r r' : Nat} {s s' : Bool}

/-- The number with the greater rank decides an order. -/
private theorem compare_decode_of_lt (less : r < r') (number' : r' ≤ infinityRank) :
    (decode s r).compare (decode s' r') = some (if s' then .gt else .lt) := by
  rcases kinds_of_le number' with rfl | ⟨positive', finite'⟩ | rfl
  · exact absurd less (Nat.not_lt_zero r)
  · rcases Nat.eq_zero_or_pos r with rfl | positive
    · rw [decode_zero, decode_finite s' positive' finite']
      cases s' <;> rfl
    · rw [decode_finite s positive (Nat.lt_trans less finite'), decode_finite s' positive' finite']
      have order := (compare_scaledOfRank r r').trans (Nat.compare_eq_lt.mpr less)
      cases s <;> cases s'
      · exact congrArg some order
      · rfl
      · rfl
      · exact congrArg (some ·.swap) order
  · rcases Nat.eq_zero_or_pos r with rfl | positive
    · cases s' <;> rfl
    · rw [decode_finite s positive less, decode_infinity]
      cases s' <;> rfl

private theorem compare_decode_of_gt (more : r' < r) (number : r ≤ infinityRank) :
    (decode s r).compare (decode s' r') = some (if s then .lt else .gt) := by
  rcases kinds_of_le number with rfl | ⟨positive, finite⟩ | rfl
  · exact absurd more (Nat.not_lt_zero r')
  · rcases Nat.eq_zero_or_pos r' with rfl | positive'
    · rw [decode_zero, decode_finite s positive finite]
      cases s <;> rfl
    · rw [decode_finite s positive finite, decode_finite s' positive' (Nat.lt_trans more finite)]
      have order := (compare_scaledOfRank r r').trans (Nat.compare_eq_gt.mpr more)
      cases s <;> cases s'
      · exact congrArg some order
      · rfl
      · rfl
      · exact congrArg (some ·.swap) order
  · rcases Nat.eq_zero_or_pos r' with rfl | positive'
    · cases s <;> rfl
    · rw [decode_finite s' positive' more, decode_infinity]
      cases s <;> rfl

private theorem compare_decode_self (number : r ≤ infinityRank) :
    (decode s r).compare (decode s' r) = some .eq ↔ r = 0 ∨ s = s' := by
  rcases kinds_of_le number with rfl | ⟨positive, finite⟩ | rfl
  · exact iff_of_true rfl (.inl rfl)
  · rw [decode_finite s positive finite, decode_finite s' positive finite,
      or_iff_right (Nat.ne_of_gt positive)]
    have order := (compare_scaledOfRank r r).trans (Nat.compare_eq_eq.mpr rfl)
    cases s <;> cases s'
    · exact iff_of_true (congrArg some order) rfl
    · exact iff_of_false nofun nofun
    · exact iff_of_false nofun nofun
    · exact iff_of_true (congrArg (fun o => some (Ordering.swap o)) order) rfl
  · cases s <;> cases s' <;> decide

/-- Numbers are equal if their signed ranks are. -/
theorem compare_decode_eq_iff (number : r ≤ infinityRank) (number' : r' ≤ infinityRank) :
    (decode s r).compare (decode s' r') = some .eq ↔ signedRank s r = signedRank s' r' := by
  rcases Nat.lt_trichotomy r r' with less | rfl | more
  · rw [compare_decode_of_lt less number']
    cases s <;> cases s' <;> simp [signedRank] <;> omega
  · rw [compare_decode_self number]
    cases s <;> cases s' <;> simp only [signedRank, if_true, Bool.false_eq_true, if_false,
      Bool.true_eq_false, or_true, or_false] <;> omega
  · rw [compare_decode_of_gt more number]
    cases s <;> cases s' <;> simp [signedRank] <;> omega

theorem compare_decode_zero_eq_lt_iff :
    (decode s r).compare (decode false 0) = some .lt ↔ s = true ∧ 0 < r ∧ r ≤ infinityRank := by
  rcases Nat.lt_or_ge infinityRank r with beyond | number
  · rw [decode_beyond s beyond]
    exact iff_of_false nofun fun ⟨_, _, number⟩ => Nat.not_le.mpr beyond number
  rcases Nat.eq_zero_or_pos r with rfl | positive
  · exact iff_of_false nofun fun ⟨_, positive, _⟩ => Nat.lt_irrefl 0 positive
  · rw [compare_decode_of_gt positive number]
    cases s <;> simp [positive, number]

theorem neg_decode (s : Bool) (r : Nat) : (decode s r).neg = decode (!s) r := by
  have flipped : -signOf s = signOf (!s) := by cases s <;> rfl
  rcases Nat.lt_or_ge infinityRank r with beyond | number
  · rw [decode_beyond s beyond, decode_beyond _ beyond]
    rfl
  rcases kinds_of_le number with rfl | ⟨positive, finite⟩ | rfl
  · exact congrArg UnpackedFloat.zero flipped
  · rw [decode_finite s positive finite, decode_finite _ positive finite]
    exact finite_congr flipped rfl rfl
  · exact congrArg UnpackedFloat.infinity flipped

end

variable {x y : Float} {r : Nat} {negative : Bool}

theorem unpack_toModel (x : Float) : x.toModel.unpack = decode (isNegative x) (rank x) :=
  unpack_eq_decode _

theorem toNat_toBits (x : Float) : x.toBits.toNat = code (isNegative x) (rank x) := by
  have bound : x.toBits.toNat < 2 ^ 64 := x.toBits.toNat_lt
  unfold code isNegative rank
  split <;> simp_all <;> omega

/-- Two doubles with the same sign and rank are the same. -/
theorem eq_of_rank (sign : isNegative x = isNegative y) (magnitude : rank x = rank y) : x = y := by
  have bits : x.toBits = y.toBits := by
    rw [← UInt64.toNat_inj, toNat_toBits, toNat_toBits, sign, magnitude]
  obtain ⟨⟨b, _⟩⟩ := x
  obtain ⟨⟨b', _⟩⟩ := y
  obtain rfl : b = b' := bits
  rfl

/-- A double that packs a sign and a rank has them. -/
theorem rank_of_pack (number : r ≤ infinityRank)
    (packed : x.toModel = Float.Model.pack (decode negative r)) :
    isNegative x = negative ∧ rank x = r := by
  have bits : x.toBits.toNat = code negative r := by
    rw [← toNat_pack_decode number]
    exact congrArg (·.toBits.toNat) packed
  unfold infinityRank at number
  unfold isNegative rank
  rw [bits]
  cases negative <;> simp [code] <;> omega

theorem rank_ofRank (negative : Bool) (number : r ≤ infinityRank) :
    isNegative (ofRank negative r) = negative ∧ rank (ofRank negative r) = r := by
  refine rank_of_pack number ?_
  have bits : (UInt64.ofNat (code negative r)).toBitVec.toNat = code negative r := by
    unfold infinityRank at number
    rw [UInt64.toNat_toBitVec, UInt64.toNat_ofNat']
    cases negative <;> simp [code] <;> omega
  have small : r < 2 ^ 63 := Nat.lt_of_le_of_lt number (by decide)
  have sign : decide (2 ^ 63 ≤ code negative r) = negative := by
    cases negative with
    | false => exact decide_eq_false (Nat.not_le.mpr small)
    | true => exact decide_eq_true (Nat.le_add_right _ r)
  have magnitude : code negative r % 2 ^ 63 = r := by
    cases negative with
    | false => exact Nat.mod_eq_of_lt small
    | true => exact (Nat.add_mod_left _ r).trans (Nat.mod_eq_of_lt small)
  have unpacked := unpack_eq_decode (UInt64.ofNat (code negative r)).toBitVec
  rw [bits, sign, magnitude] at unpacked
  exact congrArg Float.Model.pack unpacked

theorem ofRank_rank (x : Float) (number : rank x ≤ infinityRank) :
    ofRank (isNegative x) (rank x) = x := by
  obtain ⟨sign, magnitude⟩ := rank_ofRank (isNegative x) number
  exact eq_of_rank sign magnitude

theorem rank_neg (number : rank x ≤ infinityRank) :
    isNegative (-x) = !isNegative x ∧ rank (-x) = rank x := by
  refine rank_of_pack number ?_
  rw [← neg_decode, ← unpack_toModel]
  rfl

theorem neg_ofRank (number : r ≤ infinityRank) : -ofRank negative r = ofRank (!negative) r := by
  obtain ⟨sign, magnitude⟩ := rank_ofRank negative number
  obtain ⟨sign', magnitude'⟩ := rank_neg (x := ofRank negative r) (by omega)
  obtain ⟨sign'', magnitude''⟩ := rank_ofRank (!negative) number
  exact eq_of_rank (by rw [sign', sign, sign'']) (by rw [magnitude', magnitude, magnitude''])

/-- What a rank says about the kind of a double. -/
theorem kind_decode (s : Bool) (r : Nat) :
    (decode s r).isNaN = decide (infinityRank < r) ∧ (decode s r).isInf = decide (r = infinityRank) ∧
      (decode s r).isFinite = decide (r < infinityRank) := by
  rcases Nat.lt_trichotomy r infinityRank with below | rfl | beyond
  · rw [decide_eq_false (Nat.lt_asymm below), decide_eq_false (Nat.ne_of_lt below),
      decide_eq_true below]
    rcases Nat.eq_zero_or_pos r with rfl | positive
    · exact ⟨rfl, rfl, rfl⟩
    · rw [decode_finite s positive below]
      exact ⟨rfl, rfl, rfl⟩
  · exact ⟨rfl, rfl, rfl⟩
  · rw [decode_beyond s beyond, decide_eq_true beyond, decide_eq_false (Nat.ne_of_gt beyond),
      decide_eq_false (Nat.lt_asymm beyond)]
    exact ⟨rfl, rfl, rfl⟩

theorem isNaN_eq (x : Float) : x.isNaN = decide (infinityRank < rank x) := by
  change x.toModel.unpack.isNaN = _
  rw [unpack_toModel, (kind_decode _ _).1]

theorem isInf_eq (x : Float) : x.isInf = decide (rank x = infinityRank) := by
  change x.toModel.unpack.isInf = _
  rw [unpack_toModel, (kind_decode _ _).2.1]

theorem isFinite_eq (x : Float) : x.isFinite = decide (rank x < infinityRank) := by
  change x.toModel.unpack.isFinite = _
  rw [unpack_toModel, (kind_decode _ _).2.2]

theorem isFinite_neg (finite : x.isFinite = true) : (-x).isFinite = true := by
  rw [isFinite_eq, decide_eq_true_iff] at finite ⊢
  rwa [(rank_neg (Nat.le_of_lt finite)).2]

/-- Doubles are equal if both are numbers and their signed ranks are equal. -/
theorem beq_iff : (x == y) = true ↔ rank x ≤ infinityRank ∧ rank y ≤ infinityRank ∧
    signedRank (isNegative x) (rank x) = signedRank (isNegative y) (rank y) := by
  change (x.toModel.unpack.compare y.toModel.unpack == some .eq) = true ↔ _
  rw [unpack_toModel, unpack_toModel, beq_iff_eq]
  by_cases number : rank x ≤ infinityRank
  · by_cases number' : rank y ≤ infinityRank
    · simp [number, number', compare_decode_eq_iff]
    · rw [decode_beyond _ (Nat.not_le.mp number')]
      have unordered (u : UnpackedFloat) : u.compare .notANumber = none := by cases u <;> rfl
      simp [unordered, number']
  · rw [decode_beyond _ (Nat.not_le.mp number)]
    have unordered (u : UnpackedFloat) : UnpackedFloat.notANumber.compare u = none := rfl
    simp [unordered, number]

theorem lt_zero_iff : x < 0 ↔ isNegative x = true ∧ 0 < rank x ∧ rank x ≤ infinityRank := by
  change decide (x.toModel < (0 : Float).toModel) = true ↔ _
  rw [decide_eq_true_iff]
  change (x.toModel.unpack.compare (0 : Float).toModel.unpack == some .lt) = true ↔ _
  have zero : (0 : Float).toModel.unpack = decode false 0 := unpack_toModel 0
  rw [zero, unpack_toModel, beq_iff_eq, compare_decode_zero_eq_lt_iff]

@[simp] theorem rank_zero : rank 0 = 0 := rfl

theorem ofRank_zero : ofRank false 0 = 0 := by
  obtain ⟨sign, magnitude⟩ := rank_ofRank false (Nat.zero_le infinityRank)
  exact eq_of_rank sign magnitude

/-- Only the zeros equal zero. -/
theorem beq_zero_iff : (x == 0) = true ↔ rank x = 0 := by
  rw [beq_iff]
  change _ ∧ 0 ≤ infinityRank ∧ _ = (0 : Int) ↔ _
  unfold signedRank
  split <;> omega

end Scriptlet.Binary64
