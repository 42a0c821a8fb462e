import Brewhouse.Proofs.Exact.Arithmetic

/-!
Numbers by their patterns. The sign bit, the exponent and the fraction that are read off a pattern are those
of the number's parts, so that the magnitude read off it is the absolute value; and the nearest word of a
number is that of its value, so that larger numbers have larger words.
-/

namespace Brewhouse.Exact.Single

open Float.Model (UnpackedFloat)
open Float.Model.Format (binary32)
open Float.Model.UnpackedFloat

/-! ### Fields -/

theorem toNat_unpackExponent (bits : BitVec 32) :
    (@unpackExponent binary32 bits).toNat = bits.toNat / 8388608 % 256 := by
  rw [unpackExponent, BitVec.toNat_cast, BitVec.extractLsb_toNat, Nat.shiftRight_eq_div_pow]
  rfl

theorem toNat_unpackMantissa (bits : BitVec 32) :
    (@unpackMantissa binary32 bits).toNat = bits.toNat % 8388608 := by
  rw [unpackMantissa, BitVec.toNat_cast, BitVec.extractLsb_toNat, Nat.shiftRight_zero]
  rfl

theorem toNat_unpackSign (bits : BitVec 32) :
    (@unpackSign binary32 bits).toNat = bits.toNat / 2147483648 := by
  have hbits := bits.isLt
  rw [unpackSign, BitVec.toNat_cast, BitVec.extractLsb_toNat, Nat.shiftRight_eq_div_pow]
  exact Nat.mod_eq_of_lt (by change _ / 2147483648 < 2; omega)

def signOf (x : Float32) : Sign :=
  if isNegative x then .negative else .positive

theorem ofBitVec_unpackSign (x : Float32) :
    Sign.ofBitVec (@unpackSign binary32 x.toBits.toBitVec) = signOf x := by
  have hlt := x.toBits.toNat_lt
  have hbit : (@unpackSign binary32 x.toBits.toBitVec).toNat = x.toBits.toNat / 2147483648 :=
    toNat_unpackSign x.toBits.toBitVec
  unfold signOf isNegative
  by_cases hnegative : 2147483648 ≤ x.toBits.toNat
  · have hone : @unpackSign binary32 x.toBits.toBitVec ≠ 0#1 := by
      rw [← BitVec.toNat_ne_iff_ne, hbit]
      change _ ≠ 0
      omega
    rw [if_pos (decide_eq_true hnegative)]
    exact if_neg hone
  · have hzero : @unpackSign binary32 x.toBits.toBitVec = 0#1 := by
      rw [← BitVec.toNat_inj, hbit]
      exact Nat.div_eq_of_lt (by omega)
    rw [if_neg (by rwa [decide_eq_true_iff])]
    exact if_pos hzero

/-- An exponent of ones is that of an infinity or a NaN. With any other one the number is finite, and its
value is told by sign, exponent and fraction. -/
theorem fields_cases (x : Float32) :
    (x.toBits.toNat / 8388608 % 256 = 255 ∧ x.isFinite = false) ∨
    (x.toBits.toNat / 8388608 % 256 = 0 ∧ x.isFinite = true ∧
      value x = signed (signOf x) ((x.toBits.toNat % 8388608 : ℕ) * twoPow (-149))) ∨
    (x.toBits.toNat / 8388608 % 256 ≠ 255 ∧ x.toBits.toNat / 8388608 % 256 ≠ 0 ∧
      x.isFinite = true ∧
      value x = signed (signOf x) ((8388608 + x.toBits.toNat % 8388608 : ℕ) *
        twoPow ((x.toBits.toNat / 8388608 % 256 : ℕ) - 150))) := by
  have hexponent := toNat_unpackExponent x.toBits.toBitVec
  have hmantissa := toNat_unpackMantissa x.toBits.toBitVec
  have hsign := ofBitVec_unpackSign x
  have hbias : (binary32.exponentBias : ℤ) = 127 := rfl
  rw [UInt32.toNat_toBitVec] at hexponent hmantissa
  rw [← hexponent, ← hmantissa]
  change _ ∧ (unpack binary32 x.toBits.toBitVec).isFinite = false ∨
    _ ∧ (unpack binary32 x.toBits.toBitVec).isFinite = true ∧
      worth (unpack binary32 x.toBits.toBitVec) = _ ∨
    _ ∧ _ ∧ (unpack binary32 x.toBits.toBitVec).isFinite = true ∧
      worth (unpack binary32 x.toBits.toBitVec) = _
  unfold unpack
  dsimp only
  rw [hsign]
  split_ifs with hones hnone hzero hnone
  · rw [hones]
    exact Or.inl ⟨rfl, rfl⟩
  · rw [hones]
    exact Or.inl ⟨rfl, rfl⟩
  · rw [hzero, hnone]
    exact Or.inr (Or.inl ⟨rfl, rfl, by simp [worth, signed_zero]⟩)
  · rw [hzero]
    exact Or.inr (Or.inl ⟨rfl, rfl, rfl⟩)
  · have hlow : (@unpackExponent binary32 x.toBits.toBitVec).toNat ≠ 0 :=
      fun h => hzero (BitVec.eq_of_toNat_eq h)
    have hhigh : (@unpackExponent binary32 x.toBits.toBitVec).toNat ≠ 255 :=
      fun h => hones (BitVec.eq_of_toNat_eq h)
    refine Or.inr (Or.inr ⟨hhigh, hlow, rfl, ?_⟩)
    rw [worth, toNat_leadingOne, hbias]
    rfl

/-! ### Magnitudes -/

theorem magnitude_nonneg (m : ℕ) (e : ℤ) : (0 : ℚ) ≤ m * twoPow e :=
  mul_nonneg (Nat.cast_nonneg m) (twoPow_pos e).le

/-- The magnitude that is read off a pattern is the absolute value. -/
theorem magnitude?_eq (x : Float32) : magnitude? x = if x.isFinite then some |value x| else none := by
  unfold magnitude?
  dsimp only
  rcases fields_cases x with
    ⟨hones, hfinite⟩ | ⟨hzero, hfinite, hvalue⟩ | ⟨hones, hzero, hfinite, hvalue⟩
  · rw [if_pos hones, hfinite]
    rfl
  · rw [if_neg (by omega), if_pos hzero, hfinite, hvalue, abs_signed, abs_of_nonneg (magnitude_nonneg _ _)]
    rfl
  · rw [if_neg hones, if_neg hzero, hfinite, hvalue, abs_signed, abs_of_nonneg (magnitude_nonneg _ _)]
    rfl

/-- A finite number is its magnitude with its sign. -/
theorem value_eq_signed {x : Float32} (h : x.isFinite = true) :
    value x = signed (signOf x) |value x| := by
  rcases fields_cases x with ⟨-, hfinite⟩ | ⟨-, -, hvalue⟩ | ⟨-, -, -, hvalue⟩
  · rw [h] at hfinite
    cases hfinite
  · rw [hvalue, abs_signed, abs_of_nonneg (magnitude_nonneg _ _)]
  · rw [hvalue, abs_signed, abs_of_nonneg (magnitude_nonneg _ _)]

/-! ### Words -/

/-- The nearest word of a finite number: the nearest whole number, from zero up to the largest word. -/
theorem toNat_nearestWord {x : Float32} (h : x.isFinite = true) :
    (nearestWord x).toNat = min ⌊value x + 1 / 2⌋.toNat 4294967295 := by
  have hsigned := value_eq_signed h
  have hnonneg := abs_nonneg (value x)
  rw [nearestWord, magnitude?_eq, if_pos h]
  dsimp only
  cases hnegative : isNegative x with
  | true =>
      rw [signOf, hnegative, if_pos rfl, signed] at hsigned
      have hfloor : ⌊value x + 1 / 2⌋ < 1 := Int.floor_lt.mpr (by push_cast; linarith)
      have hzero : ⌊value x + 1 / 2⌋.toNat = 0 := by omega
      rw [if_pos rfl, hzero]
      rfl
  | false =>
      rw [signOf, hnegative, if_neg Bool.false_ne_true, signed] at hsigned
      rw [if_neg Bool.false_ne_true, ← hsigned, nearestAway_eq (hsigned ▸ hnonneg)]
      exact Nat.mod_eq_of_lt (Nat.lt_succ_of_le (Nat.min_le_right _ _))

/-- Larger numbers have larger nearest words. -/
theorem nearestWord_mono {x y : Float32} (hx : x.isFinite = true) (hy : y.isFinite = true)
    (h : x ≤ y) : nearestWord x ≤ nearestWord y := by
  rw [UInt32.le_iff_toNat_le, toNat_nearestWord hx, toNat_nearestWord hy]
  rw [le_iff_value (isNaN_of_isFinite hx) (isNaN_of_isFinite hy)] at h
  have hfloor : ⌊value x + 1 / 2⌋ ≤ ⌊value y + 1 / 2⌋ := Int.floor_le_floor (by linarith)
  exact min_le_min_right _ (Int.toNat_le_toNat hfloor)

/-- A word that single precision holds is the nearest word of what it becomes. -/
theorem nearestWord_toFloat32 {n : UInt32} (h : n ≤ 16777216) : nearestWord n.toFloat32 = n := by
  have hlt := n.toNat_lt
  have hle : n.toNat ≤ 16777216 := UInt32.le_iff_toNat_le.mp h
  have hexact : value n.toFloat32 = n.toNat := by
    rw [(rounds_word n).value]
    rcases hle.eq_or_lt with htop | hbelow
    · have hpower : ((n.toNat : ℕ) : ℚ) = twoPow 24 := by
        rw [htop]
        norm_num [twoPow]
      rw [hpower, closest_twoPow (by decide) (by decide)]
    · have hbound : (n.toNat : ℚ) < twoPow (0 + Format.single.precision) := by
        have hcast : (n.toNat : ℚ) < 16777216 := by exact_mod_cast hbelow
        exact hcast.trans_eq (by norm_num [twoPow, Format.single])
      have hself := closest_mul_twoPow (n := n.toNat) (k := 0) (Int.natCast_nonneg _)
      rw [show twoPow 0 = 1 from rfl, mul_one, Int.cast_natCast] at hself
      refine hself (Format.lastPlace_le_of_lt (Nat.cast_nonneg _) hbound (by decide)) ?_
      exact hbound.le.trans (twoPow_le_iff.mpr (by decide))
  rw [← UInt32.toNat_inj, toNat_nearestWord (toFloat32_word n).2, hexact]
  have hfloor : ⌊(n.toNat : ℚ) + 1 / 2⌋ = n.toNat :=
    Int.floor_eq_iff.mpr ⟨by push_cast; linarith, by push_cast; linarith⟩
  rw [hfloor]
  omega

/-- The last place of a number that a word becomes is at most 256, so that the number is rounded up by 128 at
most. -/
theorem nearestWord_toFloat32_le (n : UInt32) :
    (nearestWord n.toFloat32).toNat ≤ n.toNat + 128 := by
  have hlt : (n.toNat : ℚ) < 4294967296 := by exact_mod_cast n.toNat_lt
  have hnonneg : (0 : ℚ) ≤ n.toNat := Nat.cast_nonneg _
  have hplace : Format.single.lastPlace n.toNat ≤ 8 := by
    refine Format.lastPlace_le_of_lt hnonneg (hlt.trans_eq ?_) (by decide)
    norm_num [twoPow, Format.single]
  have hclose := (abs_le.mp (Format.abs_nearest_sub_le .single n.toNat)).2
  have hunit : twoPow (Format.single.lastPlace n.toNat) ≤ 256 :=
    (twoPow_le_iff.mpr hplace).trans_eq (by norm_num [twoPow])
  have hvalue : value n.toFloat32 ≤ n.toNat + 128 := by
    rw [(rounds_word n).value, closest_of_nonneg hnonneg]
    exact (min_le_left _ _).trans (by linarith)
  rw [toNat_nearestWord (toFloat32_word n).2]
  have hfloor : ⌊value n.toFloat32 + 1 / 2⌋ < n.toNat + 129 :=
    Int.floor_lt.mpr (by push_cast; linarith)
  omega

end Brewhouse.Exact.Single
