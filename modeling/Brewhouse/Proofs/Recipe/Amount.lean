import Brewhouse.Proofs.Exact.Rounding
import Brewhouse.Proofs.Recipe.Numeral

/-!
What a number and a unit stand for. Amounts and temperatures are worked out in double precision from the
exact value of the number, and an amount becomes the nearest whole one. An integer is converted without
loss; any other number is rounded twice in double precision, which is little against the last rounding.
-/

namespace Brewhouse.Exact

/-! ### Signs -/

theorem Format.round_of_nonneg {f : Format} {q : ℚ} (hq : 0 ≤ q) : f.round q = f.roundMagnitude q :=
  if_neg (not_lt.mpr hq)

theorem Format.round_neg_of_nonneg {f : Format} {q : ℚ} (hq : 0 ≤ q) :
    f.round (-q) = (f.roundMagnitude q).map (- ·) := by
  rcases hq.eq_or_lt with rfl | hpos
  · rw [neg_zero, round_of_nonneg le_rfl, roundMagnitude_eq, nearest_zero]
    split_ifs <;> rfl
  · rw [round, if_pos (neg_lt_zero.mpr hpos), neg_neg]

namespace Decimal

variable (number : Decimal)

def withSign (magnitude : ℚ) : ℚ :=
  if number.negative then -magnitude else magnitude

theorem value_eq : number.value = number.withSign number.magnitude :=
  rfl

theorem withSign_mul (p q : ℚ) : number.withSign (p * q) = number.withSign p * q := by
  unfold withSign
  split_ifs
  · exact (neg_mul p q).symm
  · rfl

theorem round_withSign {q : ℚ} (hq : 0 ≤ q) (f : Format) :
    f.round (number.withSign q) = (f.roundMagnitude q).map number.withSign := by
  unfold withSign
  split_ifs
  · exact Format.round_neg_of_nonneg hq
  · rw [Format.round_of_nonneg hq, Option.map_id']

theorem magnitude_nonneg : 0 ≤ number.magnitude := by
  unfold magnitude
  positivity

end Decimal

/-! ### Double precision -/

/-- In double precision a number is at most this much off. -/
theorem abs_nearest_double_sub_le {q : ℚ} (hq : 0 ≤ q) :
    |Format.double.nearest q - q| ≤ (q + 1) / 2 ^ 53 := by
  have hplaces : twoPow (1 - (Format.double.precision : ℤ)) = 1 / 2 ^ 52 := by
    norm_num [Format.double, twoPow]
  have hleast : twoPow Format.double.leastExponent ≤ 1 / 2 ^ 52 := by
    rw [← hplaces, twoPow_le_iff]
    decide
  have hplace := Format.twoPow_lastPlace_le (f := .double) hq
  rw [hplaces] at hplace
  calc |Format.double.nearest q - q| ≤ twoPow (Format.double.lastPlace q) / 2 :=
        Format.abs_nearest_sub_le _ q
    _ ≤ (q + 1) / 2 ^ 53 := by linarith

theorem roundMagnitude_double_eq_none {q : ℚ} (h : Format.double.roundMagnitude q = none) :
    2 ^ 60 ≤ Format.double.nearest q := by
  rw [Format.roundMagnitude_eq, ite_eq_right_iff] at h
  have hlimit : ¬Format.double.nearest q < twoPow Format.double.limit := fun hlt => nomatch h hlt
  have hpow : (2 : ℚ) ^ 60 = twoPow (60 : ℕ) := (twoPow_natCast 60).symm
  rw [hpow]
  exact (twoPow_le_iff.mpr (by decide)).trans (not_lt.mp hlimit)

theorem roundMagnitude_double_eq_some {q r : ℚ} (h : Format.double.roundMagnitude q = some r) :
    Format.double.nearest q = r := by
  rw [Format.roundMagnitude_eq, Option.ite_none_right_eq_some] at h
  exact Option.some.inj h.2

end Brewhouse.Exact

namespace Brewhouse.Recipe

open Exact

/-! ### Units -/

/-- The millilitres in each unit of volume. -/
def volumeUnits : List (TokenKind × ℕ) :=
  [(.litres, 1000), (.millilitres, 1)]

/-- The milliseconds in each unit of time. -/
def timeUnits : List (TokenKind × ℕ) :=
  [(.milliseconds, 1), (.seconds, 1000), (.minutes, 60000), (.hours, 3600000)]

theorem volumeFactor?_eq (kind : TokenKind) : volumeFactor? kind = volumeUnits.lookup kind := by
  cases kind <;> rfl

theorem timeFactor?_eq (kind : TokenKind) : timeFactor? kind = timeUnits.lookup kind := by
  cases kind <;> rfl

theorem lookup_bounds {units : List (TokenKind × ℕ)} (hunits : units ∈ [volumeUnits, timeUnits])
    {kind : TokenKind} {size : ℕ} (h : units.lookup kind = some size) : 1 ≤ size ∧ size ≤ 2 ^ 22 := by
  fin_cases hunits <;> cases kind <;> cases h <;> decide

/-! ### Whole amounts -/

/-- The nearest whole number; a half goes away from zero. -/
def nearestWhole (q : ℚ) : ℤ :=
  SignType.sign q * round |q|

theorem nearestWhole_of_nonneg {q : ℚ} (hq : 0 ≤ q) : nearestWhole q = nearestAway q := by
  rw [nearestWhole, abs_of_nonneg hq, nearestAway_eq hq, round_eq]
  rcases hq.eq_or_lt with rfl | hpos
  · norm_num
  · rw [sign_pos hpos, SignType.coe_one, one_mul]

theorem nearestWhole_neg (q : ℚ) : nearestWhole (-q) = -nearestWhole q := by
  rw [nearestWhole, nearestWhole, abs_neg, Left.sign_neg, SignType.coe_neg, neg_mul]

/-- So many units in double precision, in which the number is read and then multiplied. -/
def amountInDouble? (number : ℚ) (size : ℕ) : Option ℚ :=
  (Format.double.round number).bind fun read => Format.double.round (read * size)

/-- So many units as a whole amount, if that is a 32-bit word. -/
def wordOf? (number : ℚ) (size : ℕ) : Option UInt32 :=
  (amountInDouble? number size).bind fun amount =>
    if 0 ≤ nearestWhole amount ∧ nearestWhole amount < 2 ^ 32 then
      some (UInt32.ofNat (nearestWhole amount).toNat)
    else none

/-- The magnitude of an amount in double precision. -/
def product? (number : Decimal) (factor : Nat) : Option ℚ :=
  number.double?.bind fun magnitude => Format.double.roundMagnitude (magnitude * factor)

theorem double?_nonneg {number : Decimal} {q : ℚ} (h : number.double? = some q) : 0 ≤ q := by
  rw [← roundMagnitude_double_eq_some h]
  exact Format.nearest_nonneg number.magnitude_nonneg

theorem product?_nonneg {number : Decimal} {k : Nat} {p : ℚ} (h : product? number k = some p) :
    0 ≤ p := by
  obtain ⟨magnitude, hread, hproduct⟩ := Option.bind_eq_some_iff.mp h
  rw [← roundMagnitude_double_eq_some hproduct]
  exact Format.nearest_nonneg (mul_nonneg (double?_nonneg hread) k.cast_nonneg)

theorem amountInDouble?_value (number : Decimal) (size : ℕ) :
    amountInDouble? number.value size = (product? number size).map number.withSign := by
  rw [amountInDouble?, product?, number.value_eq, number.round_withSign number.magnitude_nonneg,
    ← Decimal.double?, Option.bind_map, Option.map_bind]
  refine Option.bind_congr fun read hread => ?_
  rw [Function.comp_apply, ← number.withSign_mul]
  exact number.round_withSign (mul_nonneg (double?_nonneg hread) size.cast_nonneg) _

theorem wholeAmount?_of_none {number : Decimal} {k : Nat} (h : product? number k = none) :
    wholeAmount? number k = none := by
  simp only [product?] at h
  simp only [wholeAmount?, bind, ← Option.bind_assoc, h, Option.bind_none]

theorem wholeAmount?_of_some {number : Decimal} {k : Nat} {p : ℚ} (h : product? number k = some p) :
    wholeAmount? number k =
      if number.negative = true ∧ (nearestAway p).toNat ≠ 0 then none
      else if (nearestAway p).toNat ≤ 4294967295 then some (UInt32.ofNat (nearestAway p).toNat)
      else none := by
  simp only [product?] at h
  simp only [wholeAmount?, bind, ← Option.bind_assoc, h, Option.bind_some]

/-- Reading a number and its sign apart comes to the same word. -/
theorem wordOf?_value (number : Decimal) (size : ℕ) :
    wordOf? number.value size = wholeAmount? number size := by
  rw [wordOf?, amountInDouble?_value]
  cases hproduct : product? number size with
  | none => rw [wholeAmount?_of_none hproduct, Option.map_none, Option.bind_none]
  | some p =>
      have hp := product?_nonneg hproduct
      have hwhole := nearestAway_nonneg hp
      rw [wholeAmount?_of_some hproduct, Option.map_some, Option.bind_some, Decimal.withSign]
      cases number.negative with
      | false =>
          simp only [Bool.false_eq_true, false_and, if_false, nearestWhole_of_nonneg hp]
          exact if_congr (by omega) rfl rfl
      | true =>
          rw [if_pos rfl, nearestWhole_neg, nearestWhole_of_nonneg hp]
          by_cases hzero : nearestAway p = 0
          · rw [hzero]
            rfl
          · rw [if_neg (by omega), if_pos ⟨rfl, by omega⟩]

section Factor

variable {number : Decimal} {k : Nat} (hpos : 1 ≤ k) (hle : k ≤ 2 ^ 22)

include hle

/-- Two roundings in double precision are little against an amount. -/
theorem abs_product?_sub_le {p : ℚ} (h : product? number k = some p) :
    |p - number.magnitude * k| ≤ (number.magnitude * k + 2 ^ 23) / 2 ^ 51 := by
  obtain ⟨magnitude, hread, hproduct⟩ := Option.bind_eq_some_iff.mp h
  have hexact := number.magnitude_nonneg
  have hmagnitude := double?_nonneg hread
  have hscaled : 0 ≤ magnitude * k := by positivity
  have hfirst := abs_nearest_double_sub_le hexact
  have hsecond := abs_nearest_double_sub_le hscaled
  rw [roundMagnitude_double_eq_some hread] at hfirst
  rw [roundMagnitude_double_eq_some hproduct] at hsecond
  have hk : (k : ℚ) ≤ 2 ^ 22 := by exact_mod_cast hle
  have hfirst : |magnitude * k - number.magnitude * k| ≤ (number.magnitude * k + k) / 2 ^ 53 := by
    rw [← sub_mul, abs_mul, Nat.abs_cast]
    calc _ ≤ (number.magnitude + 1) / 2 ^ 53 * k :=
          mul_le_mul_of_nonneg_right hfirst k.cast_nonneg
      _ = _ := by ring
  have hamount : 0 ≤ number.magnitude * k := by positivity
  rw [abs_le] at hfirst hsecond ⊢
  constructor <;> linarith [hfirst.1, hfirst.2, hsecond.1, hsecond.2]

/-- The last rounding is to the nearest whole amount. -/
theorem abs_whole_sub_le {p : ℚ} (h : product? number k = some p) :
    |((nearestAway p).toNat : ℚ) - number.magnitude * k| ≤
      1 / 2 + (number.magnitude * k + 2 ^ 23) / 2 ^ 51 := by
  have hp := product?_nonneg h
  have hclose := abs_product?_sub_le hle h
  have hwhole : ((nearestAway p).toNat : ℚ) = nearestAway p := by
    exact_mod_cast Int.toNat_of_nonneg (nearestAway_nonneg hp)
  rw [hwhole]
  calc |(nearestAway p : ℚ) - number.magnitude * k|
      ≤ |(nearestAway p : ℚ) - p| + |p - number.magnitude * k| := abs_sub_le _ _ _
    _ ≤ _ := add_le_add (abs_nearestAway_sub_le hp) hclose

/-- A whole amount is close to the exact one. -/
theorem wholeAmount?_close {n : UInt32} (h : wholeAmount? number k = some n) :
    |(n.toNat : ℚ) - number.value * k| < 51 / 100 := by
  cases hproduct : product? number k with
  | none =>
      rw [wholeAmount?_of_none hproduct] at h
      cases h
  | some p =>
      have hround := abs_le.mp (abs_whole_sub_le hle hproduct)
      rw [wholeAmount?_of_some hproduct] at h
      split_ifs at h with hsign hrange
      obtain rfl := Option.some.inj h
      rw [UInt32.toNat_ofNat_of_lt' (Nat.lt_succ_of_le hrange), Decimal.value, abs_lt]
      have hbound : ((nearestAway p).toNat : ℚ) ≤ 4294967295 := by exact_mod_cast hrange
      by_cases hnegative : number.negative = true
      · have hzero : (nearestAway p).toNat = 0 := by
          by_contra hne
          exact hsign ⟨hnegative, hne⟩
        rw [hzero, Nat.cast_zero] at hround ⊢
        rw [if_pos hnegative]
        constructor <;> linarith [hround.1, hround.2]
      · rw [if_neg hnegative]
        constructor <;> linarith [hround.1, hround.2]

include hpos

theorem le_of_product?_eq_none (h : product? number k = none) :
    2 ^ 33 ≤ number.magnitude * k := by
  have hexact := number.magnitude_nonneg
  have hfirst := abs_le.mp (abs_nearest_double_sub_le hexact)
  have hfactor : (1 : ℚ) ≤ k := by exact_mod_cast hpos
  have hgrown : number.magnitude ≤ number.magnitude * k := le_mul_of_one_le_right hexact hfactor
  cases hread : number.double? with
  | none =>
      have hhuge := roundMagnitude_double_eq_none hread
      linarith [hfirst.2]
  | some magnitude =>
      rw [roundMagnitude_double_eq_some hread] at hfirst
      have hmagnitude := double?_nonneg hread
      have hproduct : Format.double.roundMagnitude (magnitude * k) = none := by
        rwa [product?, hread] at h
      have hhuge := roundMagnitude_double_eq_none hproduct
      have hsecond := abs_le.mp (abs_nearest_double_sub_le (q := magnitude * k) (by positivity))
      have hscaled : magnitude * k ≤ (number.magnitude + (number.magnitude + 1) / 2 ^ 53) * k :=
        mul_le_mul_of_nonneg_right (by linarith [hfirst.2]) k.cast_nonneg
      have hk : (k : ℚ) ≤ 2 ^ 22 := by exact_mod_cast hle
      linarith [hsecond.2]

/-- What is out of range is well outside of it. -/
theorem wholeAmount?_far (h : wholeAmount? number k = none) :
    number.value * k < -(49 / 100) ∨ 2 ^ 32 - 1 + 49 / 100 < number.value * k := by
  have hlarge : 4294967296 - 51 / 100 < number.magnitude * k →
      number.value * k < -(49 / 100) ∨ 2 ^ 32 - 1 + 49 / 100 < number.value * k := by
    intro hlarge
    rw [Decimal.value]
    split_ifs with hnegative
    · exact Or.inl (by linarith)
    · exact Or.inr (by linarith)
  cases hproduct : product? number k with
  | none => exact hlarge (by linarith [le_of_product?_eq_none hpos hle hproduct])
  | some p =>
      have hround := abs_le.mp (abs_whole_sub_le hle hproduct)
      rw [wholeAmount?_of_some hproduct] at h
      split_ifs at h with hsign hrange
      · have hone : (1 : ℚ) ≤ (nearestAway p).toNat := by
          exact_mod_cast Nat.one_le_iff_ne_zero.mpr hsign.2
        rw [Decimal.value, if_pos hsign.1]
        exact Or.inl (by linarith [hround.2])
      · have hbound : (4294967296 : ℚ) ≤ (nearestAway p).toNat := by
          exact_mod_cast not_le.mp hrange
        exact hlarge (by linarith [hround.2])

end Factor

/-! ### Faithfulness -/

/-- A number of units is converted to a word as faithfully as can be asked for: a word is close to the exact
amount, and equal to it if the number is an integer, and without a word the exact amount is well out of
range. -/
def Numeral.Faithful (v : Numeral) (size : ℕ) : Option UInt32 → Prop
  | some n => |(n.toNat : ℚ) - v.value * size| < 51 / 100 ∧
      (v.kind = .integer → (n.toNat : ℚ) = v.value * size)
  | none => v.value * size < -(49 / 100) ∨ 2 ^ 32 - 1 + 49 / 100 < v.value * size

/-- Whole numbers that are less than one apart are the same. -/
theorem eq_of_abs_sub_lt_one {n : ℕ} {z : ℤ} (h : |(n : ℚ) - z| < 1) : (n : ℚ) = z := by
  have hless : |(n : ℤ) - z| < 1 := by exact_mod_cast h
  exact_mod_cast sub_eq_zero.mp (Int.abs_lt_one_iff.mp hless)

theorem Numeral.faithful_wholeAmount? (v : Numeral) {size : ℕ} (hpos : 1 ≤ size) (hle : size ≤ 2 ^ 22) :
    v.Faithful size (wholeAmount? (Decimal.ofChars v.text) size) := by
  cases hresult : wholeAmount? (Decimal.ofChars v.text) size with
  | none =>
      have hfar := wholeAmount?_far hpos hle hresult
      rwa [v.value_ofChars] at hfar
  | some n =>
      have hclose := wholeAmount?_close hle hresult
      rw [v.value_ofChars] at hclose
      refine ⟨hclose, fun hinteger => ?_⟩
      obtain ⟨z, hz⟩ := Numeral.exists_int hinteger
      have hwhole : v.value * size = (z * size : ℤ) := by
        rw [hz]
        push_cast
        rfl
      rw [hwhole] at hclose ⊢
      exact eq_of_abs_sub_lt_one (hclose.trans (by norm_num))

/-! ### Temperatures -/

/-- Degrees Fahrenheit as degrees Celsius in double precision. -/
def celsiusInDouble? (fahrenheit : ℚ) : Option ℚ := do
  let read ← Format.double.round fahrenheit
  let difference ← Format.double.round (read - 32)
  let degree ← Format.double.round (9 / 5)
  Format.double.round (difference / degree)

/-- A value in single precision. The sign is that of a zero, or of an infinity where there is no value. -/
def toSingle (negative : Bool) : Option ℚ → Celsius
  | some q => Single.ofMagnitude negative |q|
  | none => Single.infinity negative

/-- So many degrees on a scale in degrees Celsius. -/
def degrees? (number : Decimal) : TokenKind → Option Celsius
  | .celsius => some (toSingle number.negative (Format.double.round number.value))
  | .fahrenheit =>
    match celsiusInDouble? number.value with
    | some q => some (toSingle (q < 0) (some q))
    | none => some (toSingle number.negative none)
  | _ => none

theorem round_nine_fifths : Format.double.round (9 / 5) = some fahrenheitPerCelsius := by
  decide +kernel

theorem celsiusInDouble?_value (number : Decimal) :
    celsiusInDouble? number.value =
      (number.double?.map number.withSign).bind celsiusOfFahrenheit? := by
  rw [celsiusInDouble?, number.value_eq, number.round_withSign number.magnitude_nonneg]
  simp only [round_nine_fifths]
  rfl

theorem degrees?_eq (number : Decimal) (kind : TokenKind) :
    degrees? number kind = temperature? number kind := by
  cases kind
  case celsius =>
    rw [degrees?, temperature?, Decimal.single, number.value_eq,
      number.round_withSign number.magnitude_nonneg, ← Decimal.double?]
    cases hread : number.double? with
    | none => rfl
    | some q =>
        have habs : |number.withSign q| = q := by
          unfold Decimal.withSign
          split_ifs
          · rw [abs_neg, abs_of_nonneg (double?_nonneg hread)]
          · exact abs_of_nonneg (double?_nonneg hread)
        rw [Option.map_some, toSingle, habs]
  case fahrenheit =>
    have htemperature : temperature? number .fahrenheit =
        match (number.double?.map number.withSign).bind celsiusOfFahrenheit? with
        | some q =>
          some (if q < 0 then Single.ofMagnitude true (-q) else Single.ofMagnitude false q)
        | none => some (Single.infinity number.negative) := rfl
    rw [htemperature, degrees?, celsiusInDouble?_value]
    cases (number.double?.map number.withSign).bind celsiusOfFahrenheit? with
    | none => rfl
    | some q =>
        dsimp only [toSingle]
        split_ifs with hq
        · rw [decide_eq_true hq, abs_of_neg hq]
        · rw [decide_eq_false hq, abs_of_nonneg (not_lt.mp hq)]
  all_goals rfl

end Brewhouse.Recipe
