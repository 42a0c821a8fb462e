import Brewhouse.Proofs.Exact.Rounding

/-!
The rounding that single-precision arithmetic is made of goes to the nearest member of the format. It keeps
two bits of what is shifted out of a mantissa, and these tell on which side of the middle between two
mantissas a number is.
-/

namespace Brewhouse.Exact.Single

open Float.Model (totalExponent)
open Float.Model.Format (binary32 targetExponent)
open Float.Model.UnpackedFloat

/-! ### What is shifted out -/

/-- What a mantissa and its accuracy tell of a number: its floor, and on which side of the middle of the
way to the next mantissa it is. -/
def Tells (m : ℕ) : Accuracy → ℚ → Prop
  | .exact, q => q = m
  | .inexact .lt, q => m < q ∧ q < m + 1 / 2
  | .inexact .eq, q => q = m + 1 / 2
  | .inexact .gt, q => m + 1 / 2 < q ∧ q < m + 1

theorem tells_exact (m : ℕ) : Tells m .exact m := rfl

theorem Tells.bounds {m : ℕ} {accuracy : Accuracy} {q : ℚ} (h : Tells m accuracy q) :
    (m : ℚ) ≤ q ∧ q < m + 1 := by
  rcases accuracy with _ | _ | _ | _
  · rw [Tells] at h
    constructor <;> linarith
  · constructor <;> linarith [h.1, h.2]
  · rw [Tells] at h
    constructor <;> linarith
  · constructor <;> linarith [h.1, h.2]

theorem Tells.roundToNearestEven {m : ℕ} {accuracy : Accuracy} {q : ℚ} (h : Tells m accuracy q) :
    (accuracy.roundToNearestEven m : ℤ) = nearestEven q := by
  have hfloor : ⌊q⌋ = m := Int.floor_eq_iff.mpr (by exact_mod_cast h.bounds)
  rw [nearestEven_eq, hfloor, Int.cast_natCast]
  rcases accuracy with _ | _ | _ | _ <;> rw [Tells] at h <;> rw [Accuracy.roundToNearestEven]
  · rw [h, sub_self, if_pos (by norm_num)]
  · rw [if_pos (by linarith [h.2])]
  · rw [if_neg (by linarith), if_neg (by linarith)]
    split_ifs <;> omega
  · rw [if_neg (by linarith [h.1]), if_pos (by linarith [h.1])]
    rfl

theorem tells_shiftRightOne {em : ExtendedMantissa} {q : ℚ} (h : Tells em.mantissa em.accuracy q) :
    Tells em.shiftRightOne.mantissa em.shiftRightOne.accuracy (q / 2) := by
  obtain ⟨m, r, s⟩ := em
  have hm : (m : ℚ) = (m % 2 : ℕ) + 2 * (m / 2 : ℕ) := by exact_mod_cast (Nat.mod_add_div m 2).symm
  rcases Nat.mod_two_eq_zero_or_one m with hlast | hlast <;> rw [hlast] at hm <;> push_cast at hm <;>
    cases r <;> cases s <;> simp only [ExtendedMantissa.shiftRightOne, hlast]
  case inl.false.false =>
    rw [ExtendedMantissa.accuracy, Tells] at h
    exact (by linarith : q / 2 = ((m / 2 : ℕ) : ℚ))
  case inr.false.false =>
    rw [ExtendedMantissa.accuracy, Tells] at h
    exact (by linarith : q / 2 = ((m / 2 : ℕ) : ℚ) + 1 / 2)
  case inl.true.false | inr.true.false =>
    rw [ExtendedMantissa.accuracy, Tells] at h
    exact ⟨by linarith, by linarith⟩
  all_goals
    obtain ⟨hlow, hhigh⟩ := h
    exact ⟨by linarith, by linarith⟩

theorem tells_shiftRight {em : ExtendedMantissa} {q : ℚ} (h : Tells em.mantissa em.accuracy q)
    (n : ℕ) : Tells (em >>> n).mantissa (em >>> n).accuracy (q / 2 ^ n) := by
  change Tells (n.repeat ExtendedMantissa.shiftRightOne em).mantissa
    (n.repeat ExtendedMantissa.shiftRightOne em).accuracy _
  induction n with
  | zero => rwa [pow_zero, div_one]
  | succ n ih =>
      rw [pow_succ, ← div_div]
      exact tells_shiftRightOne ih

theorem tells_ofMantissaAndAccuracy {m : ℕ} {accuracy : Accuracy} {q : ℚ} (h : Tells m accuracy q) :
    Tells (ExtendedMantissa.ofMantissaAndAccuracy m accuracy).mantissa
      (ExtendedMantissa.ofMantissaAndAccuracy m accuracy).accuracy q := by
  rcases accuracy with _ | _ | _ | _ <;> exact h

/-- Shifting to a larger exponent tells of the same number in the larger unit. -/
theorem tells_shiftToExponent {m : ℕ} {e t : ℤ} {accuracy : Accuracy} {q : ℚ}
    (h : Tells m accuracy q) (he : e ≤ t) :
    (shiftToExponent m e accuracy t).2 = t ∧
      Tells (shiftToExponent m e accuracy t).1.mantissa (shiftToExponent m e accuracy t).1.accuracy
        (q * twoPow e / twoPow t) := by
  have hunit : q * twoPow e / twoPow t = q / 2 ^ (t - e).toNat := by
    have hpos := twoPow_pos e
    rw [twoPow_eq_mul he]
    push_cast
    rw [mul_div_mul_right _ _ hpos.ne']
  rw [hunit]
  refine ⟨?_, tells_shiftRight (tells_ofMantissaAndAccuracy h) _⟩
  change e + ((t - e).toNat : ℤ) = t
  omega

/-! ### Where a number is rounded -/

theorem targetExponent_eq (total : ℤ) : targetExponent binary32 total = max (total - 24) (-149) :=
  rfl

/-- The exponent that a mantissa is shifted to is that of the last place of the number. -/
theorem targetExponent_eq_lastPlace {m : ℕ} {e : ℤ} {accuracy : Accuracy} {q : ℚ}
    (h : Tells m accuracy q) (he : e ≤ targetExponent binary32 (totalExponent m e)) :
    targetExponent binary32 (totalExponent m e) = Format.single.lastPlace (q * twoPow e) := by
  have hunit := twoPow_pos e
  obtain ⟨hlow, hhigh⟩ := h.bounds
  rw [targetExponent_eq, totalExponent] at *
  by_cases hm : m = 0
  · subst hm
    rw [Nat.log2_zero] at *
    have hleast : e ≤ -149 := by omega
    have hplace : Format.single.lastPlace (q * twoPow e) ≤ -149 := by
      refine Format.lastPlace_le_of_lt (mul_nonneg (by simpa using hlow) hunit.le) ?_ le_rfl
      calc q * twoPow e < 1 * twoPow e := mul_lt_mul_of_pos_right (by simpa using hhigh) hunit
        _ = twoPow e := one_mul _
        _ ≤ _ := twoPow_le_iff.mpr (by change e ≤ -149 + 24; omega)
    have hge : -149 ≤ Format.single.lastPlace (q * twoPow e) := Format.leastExponent_le_lastPlace _
    omega
  · have hpos : 0 < q := lt_of_lt_of_le (by exact_mod_cast Nat.pos_of_ne_zero hm) hlow
    have hamount : 0 < q * twoPow e := mul_pos hpos hunit
    have hbinade : binade (q * twoPow e) = m.log2 + e := by
      apply le_antisymm
      · refine Int.lt_add_one_iff.mp (binade_lt_of_lt hamount ?_)
        have hmantissa : (m : ℚ) + 1 ≤ twoPow (m.log2 + 1) := by
          have hlt : m + 1 ≤ 2 ^ (m.log2 + 1) := Nat.lt_log2_self
          rw [← Nat.cast_succ m.log2, twoPow_natCast]
          exact_mod_cast hlt
        rw [add_right_comm, twoPow_add]
        exact mul_lt_mul_of_pos_right (hhigh.trans_le hmantissa) hunit
      · refine le_binade_of_le hamount ?_
        rw [twoPow_add]
        exact mul_le_mul_of_nonneg_right ((twoPow_log2_le hm).trans hlow) hunit.le
    rw [Format.lastPlace_of_pos hamount, hbinade]
    change max _ (-149) = max (_ - 24) (-149)
    congr 1
    omega

/-! ### Rounding -/

/-- The shape of the mantissas that are put into patterns. -/
structure Fits (m : ℕ) (e : ℤ) : Prop where
  lt : m < 2 ^ 24
  least_le : -149 ≤ e
  full : e = -149 ∨ 2 ^ 23 ≤ m

/-- A rounded mantissa that is one digit too long loses a zero. -/
theorem fits_shiftToTargetExponent {m : ℕ} {e : ℤ} (hm : m ≤ 2 ^ 24) (he : -149 ≤ e)
    (hfull : e = -149 ∨ 2 ^ 23 ≤ m) :
    Fits (shiftToTargetExponent binary32 m e .exact).1.mantissa
        (shiftToTargetExponent binary32 m e .exact).2 ∧
      ((shiftToTargetExponent binary32 m e .exact).1.mantissa : ℚ) *
          twoPow (shiftToTargetExponent binary32 m e .exact).2 = m * twoPow e := by
  rcases hm.lt_or_eq with hm | rfl
  · have hlog : m.log2 ≤ 23 := by
      by_cases hzero : m = 0
      · rw [hzero]
        decide
      · exact Nat.lt_succ_iff.mp ((Nat.log2_lt hzero).mpr hm)
    have hstay : (targetExponent binary32 (totalExponent m e) - e).toNat = 0 := by
      rw [targetExponent_eq, totalExponent]
      omega
    have hsame : shiftToTargetExponent binary32 m e .exact =
        (ExtendedMantissa.ofMantissaAndAccuracy m .exact, e) := by
      rw [shiftToTargetExponent, shiftToExponent, hstay, Nat.cast_zero, add_zero]
      rfl
    rw [hsame]
    exact ⟨⟨hm, he, hfull⟩, rfl⟩
  · have hone : (targetExponent binary32 (totalExponent (2 ^ 24) e) - e).toNat = 1 := by
      rw [targetExponent_eq, totalExponent, Nat.log2_two_pow]
      omega
    have hsame : shiftToTargetExponent binary32 (2 ^ 24) e .exact =
        (⟨2 ^ 23, false, false⟩, e + 1) := by
      rw [shiftToTargetExponent, shiftToExponent, hone, Nat.cast_one]
      rfl
    rw [hsame]
    refine ⟨⟨by norm_num, by dsimp only; omega, Or.inr le_rfl⟩, ?_⟩
    dsimp only
    rw [twoPow_add]
    norm_num [twoPow]
    ring

/-- A mantissa told of by its accuracy is rounded to the nearest member of the format. -/
theorem roundWithAccuracy_spec {m : ℕ} {e : ℤ} {accuracy : Accuracy} {q : ℚ}
    (h : Tells m accuracy q) (he : e ≤ targetExponent binary32 (totalExponent m e)) (s : Sign) :
    ∃ n d, Fits n d ∧ (n : ℚ) * twoPow d = Format.single.nearest (q * twoPow e) ∧
      roundWithAccuracy binary32 s m e accuracy =
        if hn : n = 0 then .zero s else .finite s n d (Nat.pos_of_ne_zero hn) := by
  set t := targetExponent binary32 (totalExponent m e) with ht
  obtain ⟨hexponent, htells⟩ := tells_shiftToExponent h he
  have hplace : t = Format.single.lastPlace (q * twoPow e) := targetExponent_eq_lastPlace h he
  set first := shiftToExponent m e accuracy t with hfirst
  have hrounded : (first.1.roundedMantissa : ℚ) * twoPow t = Format.single.nearest (q * twoPow e) := by
    have hnearest := htells.roundToNearestEven
    rw [Format.nearest, ← hplace, ← hnearest]
    rfl
  have hunit := twoPow_pos t
  obtain ⟨hlow, hhigh⟩ := h.bounds
  have hamount : 0 ≤ q * twoPow e :=
    mul_nonneg ((Nat.cast_nonneg m).trans hlow) (twoPow_pos e).le
  have hmost : first.1.roundedMantissa ≤ 2 ^ 24 := by
    have hlt := (Format.lt_twoPow_lastPlace (f := .single) hamount).le
    rw [← hplace, add_comm, twoPow_add] at hlt
    have hle := Format.nearest_le (n := 2 ^ 24) hplace.ge hlt
    rw [← hrounded] at hle
    exact_mod_cast le_of_mul_le_mul_right hle hunit
  have hleast : -149 ≤ t := by
    rw [ht, targetExponent_eq]
    exact le_max_right _ _
  have hfull : t = -149 ∨ 2 ^ 23 ≤ first.1.roundedMantissa := by
    rcases hleast.eq_or_lt with heq | hlt
    · exact Or.inl heq.symm
    · right
      rw [hplace] at hlt
      have hge := Format.twoPow_lastPlace_le_of_lt (f := .single) hamount hlt
      rw [← hplace, add_sub_assoc, add_comm, twoPow_add] at hge
      have hle := Format.le_nearest (n := 2 ^ 23) hplace.ge hge
      rw [← hrounded] at hle
      exact_mod_cast le_of_mul_le_mul_right hle hunit
  obtain ⟨hfits, hvalue⟩ := fits_shiftToTargetExponent hmost hleast hfull
  refine ⟨_, _, hfits, hvalue.trans hrounded, ?_⟩
  unfold roundWithAccuracy
  dsimp only
  rw [show shiftToTargetExponent binary32 m e accuracy = first from rfl, hexponent]

end Brewhouse.Exact.Single
