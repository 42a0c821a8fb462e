import Brewhouse.Proofs.Exact.Value

/-!
Single-precision arithmetic. Of finite numbers a sum, a difference, a product or a quotient is the number
nearest to the exact one, and so is the number made of a word. Signs and bounds of results follow from the
order of exact ones, infinities included.
-/

namespace Brewhouse.Exact.Single

open Float.Model (UnpackedFloat totalExponent)
open Float.Model.Format (binary32 targetExponent)
open Float.Model.UnpackedFloat

/-! ### Parts -/

/-- Parts that stand for `q`, rounded. -/
def RoundsTo (u : UnpackedFloat) (q : ℚ) : Prop :=
  settle u ≠ .notANumber ∧ worth (settle u) = closest q

theorem rounds_of_parts {x : Float32} {u : UnpackedFloat} {q : ℚ} (hx : parts x = settle u)
    (h : RoundsTo u q) : Rounds x q := by
  refine ⟨Bool.eq_false_of_not_eq_true fun hnan => h.1 ?_, ?_⟩
  · rw [← hx, ← isNaN_iff_parts, hnan]
  · rw [value, hx]
    exact h.2

theorem roundsTo_held {u : UnpackedFloat} (h : Held u) (hfinite : u.isFinite = true) :
    RoundsTo u (worth u) := by
  have hne : u ≠ .notANumber := by
    rintro rfl
    cases hfinite
  rw [RoundsTo, settle_held h]
  exact ⟨hne, (closest_worth h).symm⟩

theorem roundsTo_roundWithAccuracy {m : ℕ} {e : ℤ} {accuracy : Accuracy} {q : ℚ}
    (h : Tells m accuracy q) (he : e ≤ targetExponent binary32 (totalExponent m e)) (s : Sign) :
    RoundsTo (roundWithAccuracy binary32 s m e accuracy) (signed s (q * twoPow e)) := by
  obtain ⟨n, d, hfits, hvalue, hround⟩ := roundWithAccuracy_spec h he s
  have hamount : 0 ≤ q * twoPow e :=
    mul_nonneg ((Nat.cast_nonneg m).trans h.bounds.1) (twoPow_pos e).le
  rw [RoundsTo, hround, closest_signed, closest_of_nonneg hamount, ← hvalue]
  by_cases hn : n = 0
  · rw [dif_pos hn, settle_zero, hn, Nat.cast_zero, zero_mul, min_eq_left (twoPow_pos 128).le,
      signed_zero]
    exact ⟨by simp, rfl⟩
  · rw [dif_neg hn, settle_of_fits hfits]
    by_cases hd : d ≤ 104
    · rw [if_pos hd, min_eq_left (hfits.magnitude_lt_top hd).le]
      exact ⟨by simp, rfl⟩
    · have hfull : 2 ^ 23 ≤ n := hfits.full.resolve_left (by omega)
      have htop : twoPow 128 ≤ n * twoPow d := by
        calc twoPow 128 ≤ twoPow (23 + d) := twoPow_le_iff.mpr (by omega)
          _ = twoPow 23 * twoPow d := twoPow_add 23 d
          _ ≤ n * twoPow d :=
            mul_le_mul_of_nonneg_right (by norm_num [twoPow]; exact_mod_cast hfull) (twoPow_pos d).le
      rw [if_neg hd, min_eq_right htop]
      exact ⟨by simp, rfl⟩

theorem cast_shiftLeft_mul (m k : ℕ) (e : ℤ) :
    ((m <<< k : ℕ) : ℚ) * twoPow (e - k) = m * twoPow e := by
  have he : e = (e - k) + k := by omega
  conv_rhs => rw [he, twoPow_add, twoPow_natCast]
  rw [Nat.shiftLeft_eq]
  push_cast
  ring

theorem cast_shiftLeft_mul_of_le (m : ℕ) {e t : ℤ} (h : t ≤ e) :
    ((m <<< (e - t).toNat : ℕ) : ℚ) * twoPow t = m * twoPow e := by
  have ht : t = e - (e - t).toNat := by omega
  conv_lhs => rw [ht, ← ht]
  rw [← cast_shiftLeft_mul m (e - t).toNat, ← ht]

theorem log2_shiftLeft {m : ℕ} (hm : m ≠ 0) (k : ℕ) : (m <<< k).log2 = m.log2 + k := by
  induction k with
  | zero => rfl
  | succ k ih =>
      rw [Nat.shiftLeft_succ, Nat.log2_two_mul, ih, Nat.add_assoc]
      rw [Nat.shiftLeft_eq]
      exact Nat.mul_ne_zero hm (Nat.two_pow_pos k).ne'

theorem roundsTo_round (s : Sign) {m : ℕ} (hm : m ≠ 0) (e : ℤ) :
    RoundsTo (round binary32 s m e) (signed s (m * twoPow e)) := by
  have hround : round binary32 s m e =
      let k := (e - targetExponent binary32 (totalExponent m e)).toNat
      roundWithAccuracy binary32 s (m <<< k) (e - k) .exact := rfl
  rw [hround, ← cast_shiftLeft_mul]
  refine roundsTo_roundWithAccuracy (tells_exact _) ?_ s
  rw [targetExponent_eq, targetExponent_eq, totalExponent, totalExponent, log2_shiftLeft hm]
  push_cast
  omega

theorem cast_apply (s : Sign) (n : ℤ) : ((s.apply n : ℤ) : ℚ) = signed s n := by
  cases s
  · exact Int.cast_neg n
  · rfl

/-- A whole number of units is rounded as it is, whatever the sign of zero. -/
theorem roundsTo_normalize (n e : ℤ) (s : Sign) :
    RoundsTo (UnpackedFloat.normalize binary32 n e s) (n * twoPow e) := by
  rcases lt_trichotomy n 0 with hn | rfl | hn
  · have hnormal : UnpackedFloat.normalize binary32 n e s = round binary32 .negative (-n).toNat e := by
      rw [UnpackedFloat.normalize, Int.compare_eq_lt.mpr hn]
    have hvalue : (n : ℚ) * twoPow e = signed .negative ((-n).toNat * twoPow e) := by
      have hcast : (((-n).toNat : ℕ) : ℚ) = ((-n : ℤ) : ℚ) := by
        exact_mod_cast Int.toNat_of_nonneg (by omega)
      rw [hcast, signed]
      push_cast
      ring
    rw [hnormal, hvalue]
    exact roundsTo_round _ (by omega) e
  · have hnormal : UnpackedFloat.normalize binary32 0 e s = .zero s := rfl
    rw [hnormal, Int.cast_zero, zero_mul]
    exact roundsTo_held trivial rfl
  · have hnormal : UnpackedFloat.normalize binary32 n e s = round binary32 .positive n.toNat e := by
      rw [UnpackedFloat.normalize, Int.compare_eq_gt.mpr hn]
    have hvalue : (n : ℚ) * twoPow e = signed .positive (n.toNat * twoPow e) := by
      have hcast : ((n.toNat : ℕ) : ℚ) = (n : ℚ) := by
        exact_mod_cast Int.toNat_of_nonneg hn.le
      rw [hcast, signed]
    rw [hnormal, hvalue]
    exact roundsTo_round _ (by omega) e

theorem signed_mul (s : Sign) (p q : ℚ) : signed s (p * q) = signed s p * q := by
  cases s
  · exact (neg_mul p q).symm
  · rfl

theorem signed_mul_signed (s t : Sign) (p q : ℚ) :
    signed (s * t) (p * q) = signed s p * signed t q := by
  cases s <;> cases t
  · exact (neg_mul_neg p q).symm
  · exact (neg_mul p q).symm
  · exact (mul_neg p q).symm
  · rfl

theorem signed_div_signed (s t : Sign) (p q : ℚ) :
    signed (s / t) (p / q) = signed s p / signed t q := by
  cases s <;> cases t
  · exact (neg_div_neg_eq p q).symm
  · exact (neg_div q p).symm
  · exact (div_neg p).symm
  · rfl

theorem roundsTo_add {u v : UnpackedFloat} (hu : Held u) (hv : Held v) (hu' : u.isFinite = true)
    (hv' : v.isFinite = true) : RoundsTo (add binary32 u v) (worth u + worth v) := by
  rcases u with _ | _ | s | ⟨s, m, e, hm⟩
  case infinity | notANumber => cases hu'
  all_goals rcases v with _ | _ | t | ⟨t, n, d, hn⟩
  case zero.infinity | zero.notANumber | finite.infinity | finite.notANumber => cases hv'
  case zero.zero =>
    rw [worth, worth, add_zero, add]
    split <;> exact roundsTo_held trivial rfl
  case zero.finite =>
    rw [worth, zero_add]
    exact roundsTo_held hv hv'
  case finite.zero =>
    have hzero : worth (.zero t) = 0 := rfl
    rw [hzero, add_zero]
    exact roundsTo_held hu hu'
  case finite.finite =>
    have hsum : worth (.finite s m e hm) + worth (.finite t n d hn) =
        ((s.apply ((m <<< (e - min e d).toNat : ℕ) : ℤ) +
          t.apply ((n <<< (d - min e d).toNat : ℕ) : ℤ) : ℤ) : ℚ) * twoPow (min e d) := by
      rw [Int.cast_add, cast_apply, cast_apply, Int.cast_natCast, Int.cast_natCast, add_mul,
        ← signed_mul, ← signed_mul, cast_shiftLeft_mul_of_le m (min_le_left e d),
        cast_shiftLeft_mul_of_le n (min_le_right e d)]
      rfl
    rw [hsum]
    exact roundsTo_normalize _ _ _

theorem worth_neg (u : UnpackedFloat) : worth u.neg = -worth u := by
  rcases u with (_ | _) | _ | _ | ⟨_ | _, m, e, hm⟩ <;>
    simp [UnpackedFloat.neg, worth, signed]

theorem roundsTo_sub {u v : UnpackedFloat} (hu : Held u) (hv : Held v) (hu' : u.isFinite = true)
    (hv' : v.isFinite = true) : RoundsTo (sub binary32 u v) (worth u - worth v) := by
  have hneg : sub binary32 u v = add binary32 u v.neg := by
    rcases u with (_ | _) | _ | (_ | _) | ⟨s, m, e, hm⟩ <;>
      rcases v with (_ | _) | _ | (_ | _) | ⟨_ | _, n, d, hn⟩
    case finite.finite.negative =>
      exact congrArg (UnpackedFloat.normalize binary32 · (min e d) .positive) (sub_neg_eq_add _ _)
    all_goals rfl
  have hheld : Held v.neg := by
    rcases v with _ | _ | _ | _ <;> exact hv
  have hfinite : v.neg.isFinite = true := by
    rcases v with _ | _ | _ | _ <;> exact hv'
  rw [hneg, sub_eq_add_neg, ← worth_neg]
  exact roundsTo_add hu hheld hu' hfinite

theorem roundsTo_mul {u v : UnpackedFloat} (hu : Held u) (hv : Held v) (hu' : u.isFinite = true)
    (hv' : v.isFinite = true) : RoundsTo (mul binary32 u v) (worth u * worth v) := by
  rcases u with _ | _ | s | ⟨s, m, e, hm⟩
  case infinity | notANumber => cases hu'
  all_goals rcases v with _ | _ | t | ⟨t, n, d, hn⟩
  case zero.infinity | zero.notANumber | finite.infinity | finite.notANumber => cases hv'
  case zero.zero | zero.finite =>
    rw [worth, zero_mul]
    exact roundsTo_held trivial rfl
  case finite.zero =>
    have hzero : worth (.zero t) = 0 := rfl
    rw [hzero, mul_zero]
    exact roundsTo_held trivial rfl
  case finite.finite =>
    have hproduct : worth (.finite s m e hm) * worth (.finite t n d hn) =
        signed (s * t) (((m * n : ℕ) : ℚ) * twoPow (e + d)) := by
      rw [worth, worth, ← signed_mul_signed, twoPow_add]
      push_cast
      congr 1
      ring
    rw [hproduct]
    refine roundsTo_roundWithAccuracy (tells_exact _) ?_ _
    have hdigits : e + d ≤ -149 ∨ 2 ^ 23 ≤ m * n := by
      have hmn := Nat.mul_le_mul_right n hm
      have hnm := Nat.mul_le_mul_left m hn
      rcases hu.1.full with he | hfull
      · rcases hv.1.full with hd | hfull
        · omega
        · exact Or.inr (hfull.trans (by omega))
      · exact Or.inr (hfull.trans (by omega))
    rw [targetExponent_eq, totalExponent]
    rcases hdigits with hleast | hfull
    · omega
    · have := (Nat.le_log2 (Nat.mul_pos hm hn).ne').mpr hfull
      omega

/-- What a division leaves over tells on which side of the middle the quotient is. -/
theorem tells_accuracyOfFraction (m : ℕ) {n : ℕ} (hn : 0 < n) :
    Tells (m / n) (accuracyOfFraction (m % n) n) (m / n) := by
  have hpos : (0 : ℚ) < n := by exact_mod_cast hn
  have hquotient : (m : ℚ) / n = (m / n : ℕ) + ((m % n : ℕ) : ℚ) / n := by
    have hdivision : (m : ℚ) = n * (m / n : ℕ) + (m % n : ℕ) := by
      exact_mod_cast (Nat.div_add_mod m n).symm
    conv_lhs => rw [hdivision, add_div, mul_div_cancel_left₀ _ hpos.ne']
  rw [hquotient, accuracyOfFraction]
  split
  · next hzero =>
    rw [hzero, Nat.cast_zero, zero_div]
    exact add_zero _
  · next hrest =>
    have hone : ((m % n : ℕ) : ℚ) / n < 1 :=
      (div_lt_one hpos).mpr (by exact_mod_cast Nat.mod_lt m hn)
    have hsome : 0 < ((m % n : ℕ) : ℚ) / n :=
      div_pos (by exact_mod_cast Nat.pos_of_ne_zero hrest) hpos
    rcases lt_trichotomy (2 * (m % n)) n with hhalf | hhalf | hhalf
    · rw [Nat.compare_eq_lt.mpr hhalf]
      have hlt : ((m % n : ℕ) : ℚ) / n < 1 / 2 := by
        rw [div_lt_div_iff₀ hpos two_pos]
        exact_mod_cast (by omega : m % n * 2 < 1 * n)
      exact ⟨by linarith, by linarith⟩
    · rw [Nat.compare_eq_eq.mpr hhalf]
      have heq : ((m % n : ℕ) : ℚ) / n = 1 / 2 := by
        rw [div_eq_div_iff hpos.ne' two_ne_zero]
        exact_mod_cast (by omega : m % n * 2 = 1 * n)
      rw [heq]
      rfl
    · rw [Nat.compare_eq_gt.mpr hhalf]
      have hgt : 1 / 2 < ((m % n : ℕ) : ℚ) / n := by
        rw [div_lt_div_iff₀ two_pos hpos]
        exact_mod_cast (by omega : 1 * n < m % n * 2)
      exact ⟨by linarith, by linarith⟩

/-- A quotient is at most one digit short of those that the divisor takes off. -/
theorem log2_le_div {m n : ℕ} (hm : m ≠ 0) (hn : n ≠ 0) :
    m.log2 ≤ (m / n).log2 + n.log2 + 1 := by
  have hlt : m < 2 ^ ((m / n).log2 + 1) * 2 ^ (n.log2 + 1) := by
    calc m < n * (m / n + 1) := Nat.lt_mul_div_succ m (Nat.pos_of_ne_zero hn)
      _ = (m / n + 1) * n := Nat.mul_comm _ _
      _ ≤ 2 ^ ((m / n).log2 + 1) * 2 ^ (n.log2 + 1) :=
        Nat.mul_le_mul Nat.lt_log2_self Nat.lt_log2_self.le
  rw [← Nat.pow_add] at hlt
  have := (Nat.log2_lt hm).mpr hlt
  omega

theorem roundsTo_div {u v : UnpackedFloat} (hu' : u.isFinite = true)
    (hv' : v.isFinite = true) (hne : worth v ≠ 0) : RoundsTo (div binary32 u v) (worth u / worth v) := by
  rcases v with _ | _ | t | ⟨t, n, d, hn⟩
  case infinity | notANumber => cases hv'
  case zero => exact absurd rfl hne
  rcases u with _ | _ | s | ⟨s, m, e, hm⟩
  case infinity | notANumber => cases hu'
  case zero =>
    rw [worth, zero_div]
    exact roundsTo_held trivial rfl
  case finite =>
    set target := min (e - d) (targetExponent binary32 (totalExponent m e - totalExponent n d))
      with htarget
    set k := (e - d - target).toNat with hk
    have hplace : target = e - d - k := by omega
    have hdiv : div binary32 (.finite s m e hm) (.finite t n d hn) =
        roundWithAccuracy binary32 (s / t) (m <<< k / n) target
          (accuracyOfFraction (m <<< k % n) n) := rfl
    have hquotient : worth (.finite s m e hm) / worth (.finite t n d hn) =
        signed (s / t) (((m <<< k : ℕ) : ℚ) / n * twoPow target) := by
      rw [worth, worth, ← signed_div_signed, hplace, div_mul_eq_mul_div, cast_shiftLeft_mul,
        mul_div_mul_comm, twoPow_sub, div_mul_eq_mul_div]
    rw [hdiv, hquotient]
    refine roundsTo_roundWithAccuracy (tells_accuracyOfFraction _ hn) ?_ _
    have hlog := log2_shiftLeft hm.ne' k
    have hsome : m <<< k ≠ 0 := by
      rw [Nat.shiftLeft_eq]
      exact Nat.mul_ne_zero hm.ne' (Nat.two_pow_pos k).ne'
    rw [targetExponent_eq, totalExponent, totalExponent] at htarget
    rw [targetExponent_eq, totalExponent]
    have := log2_le_div hsome hn.ne'
    omega

/-! ### Numbers -/

section Numbers

variable {x y : Float32} (hx : (parts x).isFinite = true) (hy : (parts y).isFinite = true)

include hx hy

theorem rounds_add : Rounds (x + y) (value x + value y) :=
  rounds_of_parts (parts_add x y) (roundsTo_add (held_parts x) (held_parts y) hx hy)

theorem rounds_sub : Rounds (x - y) (value x - value y) :=
  rounds_of_parts (parts_sub x y) (roundsTo_sub (held_parts x) (held_parts y) hx hy)

theorem rounds_mul : Rounds (x * y) (value x * value y) :=
  rounds_of_parts (parts_mul x y) (roundsTo_mul (held_parts x) (held_parts y) hx hy)

theorem rounds_div (hne : value y ≠ 0) : Rounds (x / y) (value x / value y) :=
  rounds_of_parts (parts_div x y) (roundsTo_div hx hy hne)

end Numbers

theorem rounds_word (n : UInt32) : Rounds n.toFloat32 n.toNat := by
  have hparts : parts n.toFloat32 =
      settle (UnpackedFloat.normalize binary32 n.toNat 0 .positive) := rfl
  have hvalue : (n.toNat : ℚ) = ((n.toNat : ℤ) : ℚ) * twoPow 0 := by
    rw [twoPow, zpow_zero, mul_one, Int.cast_natCast]
  rw [hvalue]
  exact rounds_of_parts hparts (roundsTo_normalize _ 0 .positive)

/-! ### Finite and infinite numbers -/

theorem eq_of_parts_eq {x y : Float32} (h : parts x = parts y) : x = y := by
  rw [← ofModel_pack_parts x, h, ofModel_pack_parts]

theorem isNaN_of_isFinite {x : Float32} (h : (parts x).isFinite = true) : x.isNaN = false := by
  refine Bool.eq_false_of_not_eq_true fun hnan => ?_
  rw [(isNaN_iff_parts x).mp hnan] at h
  cases h

/-- A number is finite, infinite or NaN. -/
theorem isFinite_or_infinity {x : Float32} (h : x.isNaN = false) :
    (parts x).isFinite = true ∨ ∃ s, parts x = .infinity s := by
  cases hparts : parts x with
  | notANumber =>
      rw [(isNaN_iff_parts x).mpr hparts] at h
      cases h
  | infinity s => exact Or.inr ⟨s, rfl⟩
  | zero s => exact Or.inl rfl
  | finite s m e hm => exact Or.inl rfl

theorem nonneg_iff_value {x : Float32} (hx : x.isNaN = false) : 0 ≤ x ↔ 0 ≤ value x := by
  rw [le_iff_value rfl hx, value_zero]

theorem pos_iff_value {x : Float32} : 0 < x ↔ x.isNaN = false ∧ 0 < value x := by
  constructor
  · intro h
    have hx : x.isNaN = false :=
      Bool.eq_false_of_not_eq_true fun hnan => not_lt_of_isNaN_right hnan h
    refine ⟨hx, lt_of_not_ge fun hle => not_le_of_lt h ?_⟩
    rwa [le_iff_value hx rfl, value_zero]
  · rintro ⟨hx, hpos⟩
    refine lt_of_not_le rfl hx fun hle => ?_
    rw [le_iff_value hx rfl, value_zero] at hle
    exact hle.not_gt hpos

theorem abs_value_lt {x : Float32} (h : (parts x).isFinite = true) : |value x| < twoPow 128 := by
  have htop := twoPow_pos 128
  have hheld := held_parts x
  unfold value
  rcases hparts : parts x with s | _ | s | ⟨s, m, e, hm⟩ <;> rw [hparts] at h hheld
  · cases h
  · cases h
  · rwa [worth, abs_zero]
  · rw [worth, abs_signed, abs_of_pos (magnitude_pos hm e)]
    exact hheld.1.magnitude_lt_top hheld.2

theorem isFinite_of_abs_value_lt {x : Float32} (hx : x.isNaN = false) (h : |value x| < twoPow 128) :
    (parts x).isFinite = true := by
  rcases isFinite_or_infinity hx with hfinite | ⟨s, hinfinity⟩
  · exact hfinite
  · rw [value, hinfinity, worth, abs_signed, abs_of_pos (twoPow_pos 128)] at h
    exact absurd h (lt_irrefl _)

/-! ### Words -/

theorem value_word_le (n : UInt32) : value n.toFloat32 ≤ twoPow 32 := by
  rw [(rounds_word n).value, ← closest_twoPow (k := 32) (by decide) (by decide)]
  have hword : (n.toNat : ℚ) ≤ 2 ^ 32 := by exact_mod_cast n.toNat_lt.le
  exact closest_mono hword

theorem one_le_value_word {n : UInt32} (h : 0 < n) : 1 ≤ value n.toFloat32 := by
  have hone : closest 1 = 1 := closest_twoPow (k := 0) (by decide) (by decide)
  rw [(rounds_word n).value, ← hone]
  exact closest_mono (by exact_mod_cast UInt32.lt_iff_toNat_lt.mp h)

/-- A word becomes a finite number that is not below zero. -/
theorem toFloat32_word (n : UInt32) :
    0 ≤ n.toFloat32 ∧ (parts n.toFloat32).isFinite = true := by
  have hword := rounds_word n
  have hnonneg : 0 ≤ value n.toFloat32 := by
    rw [hword.value]
    exact closest_nonneg n.toNat.cast_nonneg
  refine ⟨(nonneg_iff_value hword.isNaN).mpr hnonneg, isFinite_of_abs_value_lt hword.isNaN ?_⟩
  rw [abs_of_nonneg hnonneg]
  exact (value_word_le n).trans_lt (twoPow_lt_iff.mpr (by decide))

/-! ### Signs -/

theorem add_infinity {x y : Float32} (hx : (parts x).isFinite = true) {s : Sign}
    (hy : parts y = .infinity s) : x + y = y := by
  apply eq_of_parts_eq
  rw [parts_add, hy]
  cases hparts : parts x with
  | notANumber | infinity _ =>
      rw [hparts] at hx
      cases hx
  | zero _ | finite _ _ _ _ => exact settle_held trivial

/-- What is added moves a number up or down by its sign. -/
theorem add_side {x y : Float32} (hx : (parts x).isFinite = true) (hy : y.isNaN = false) :
    (x + y).isNaN = false ∧ (0 ≤ value y → x ≤ x + y) ∧ (value y ≤ 0 → x + y ≤ x) := by
  have hself := rounds_self (isNaN_of_isFinite hx)
  rcases isFinite_or_infinity hy with hfinite | ⟨s, hinfinity⟩
  · have hsum := rounds_add hx hfinite
    exact ⟨hsum.isNaN, fun h => hself.le hsum (by linarith), fun h => hsum.le hself (by linarith)⟩
  · have hvalue : value y = signed s (twoPow 128) := by rw [value, hinfinity, worth]
    have hbound := abs_lt.mp (abs_value_lt hx)
    rw [add_infinity hx hinfinity, le_iff_value hself.isNaN hy, le_iff_value hy hself.isNaN, hvalue]
    refine ⟨hy, fun h => ?_, fun h => ?_⟩ <;> cases s <;> rw [signed] at h ⊢
    · linarith [twoPow_pos 128]
    · exact hbound.2.le
    · exact hbound.1.le
    · linarith [twoPow_pos 128]

theorem mul_infinity {x y : Float32} {m : ℕ} {e : ℤ} {hm : 0 < m}
    (hx : parts x = .finite .positive m e hm) {s : Sign} (hy : parts y = .infinity s) : x * y = y := by
  apply eq_of_parts_eq
  rw [parts_mul, hx, hy]
  cases s <;> exact settle_held trivial

/-- A factor above zero keeps the sign. -/
theorem mul_side {x y : Float32} (hx : (parts x).isFinite = true) (hpos : 0 < value x)
    (hy : y.isNaN = false) :
    (x * y).isNaN = false ∧ (0 ≤ value y → 0 ≤ value (x * y)) ∧ (value y ≤ 0 → value (x * y) ≤ 0) := by
  rcases isFinite_or_infinity hy with hfinite | ⟨s, hinfinity⟩
  · have hproduct := rounds_mul hx hfinite
    rw [hproduct.value]
    exact ⟨hproduct.isNaN, fun h => closest_nonneg (mul_nonneg hpos.le h),
      fun h => closest_nonpos (mul_nonpos_of_nonneg_of_nonpos hpos.le h)⟩
  · obtain ⟨m, e, hm, hparts⟩ : ∃ m e hm, parts x = .finite .positive m e hm := by
      unfold value at hpos
      rcases hparts : parts x with _ | _ | _ | ⟨_ | _, m, e, hm⟩ <;> rw [hparts] at hx hpos
      · cases hx
      · cases hx
      · exact absurd hpos (lt_irrefl 0)
      · rw [worth, signed] at hpos
        linarith [magnitude_pos hm e]
      · exact ⟨m, e, hm, rfl⟩
    rw [mul_infinity hparts hinfinity]
    exact ⟨hy, id, id⟩

/-- A part of a number that is not below zero is not above it. -/
theorem mul_le_of_le_one {x y : Float32} (hx : 0 ≤ x) (hone : x ≤ 1) (hy : 0 ≤ y)
    (hfinite : (parts y).isFinite = true) : (parts (x * y)).isFinite = true ∧ x * y ≤ y := by
  have hxnan := (isNaN_of_le hone).1
  have hynan := (isNaN_of_le hy).2
  rw [nonneg_iff_value hxnan] at hx
  rw [nonneg_iff_value hynan] at hy
  rw [le_iff_value hxnan rfl, value_one] at hone
  have hxfinite : (parts x).isFinite = true := by
    refine isFinite_of_abs_value_lt hxnan ?_
    rw [abs_of_nonneg hx]
    exact hone.trans_lt (twoPow_lt_iff.mpr (by decide : (0 : ℤ) < 128))
  have hproduct := rounds_mul hxfinite hfinite
  have hle : x * y ≤ y := hproduct.le (rounds_self hynan) (mul_le_of_le_one_left hy hone)
  refine ⟨isFinite_of_abs_value_lt hproduct.isNaN ?_, hle⟩
  rw [le_iff_value hproduct.isNaN hynan] at hle
  rw [abs_of_nonneg (hproduct.value ▸ closest_nonneg (mul_nonneg hx hy))]
  exact hle.trans_lt (abs_lt.mp (abs_value_lt hfinite)).2

theorem value_one_mul {x : Float32} (hfinite : (parts x).isFinite = true) :
    (parts (1 * x)).isFinite = true ∧ value (1 * x) = value x := by
  have hone : (parts 1).isFinite = true := rfl
  have hproduct := rounds_mul hone hfinite
  have hvalue : value (1 * x) = value x := by
    rw [hproduct.value, value_one, one_mul]
    exact (rounds_self (isNaN_of_isFinite hfinite)).value.symm
  refine ⟨isFinite_of_abs_value_lt hproduct.isNaN ?_, hvalue⟩
  rw [hvalue]
  exact abs_value_lt hfinite

/-- A finite number that is not below zero stays so when it is divided by what is above zero. -/
theorem nonneg_div {x y : Float32} (hx : 0 ≤ x) (hfinite : (parts x).isFinite = true)
    (hy : 0 < y) : 0 ≤ x / y := by
  have hxvalue := (nonneg_iff_value (isNaN_of_isFinite hfinite)).mp hx
  obtain ⟨hynan, hyvalue⟩ := pos_iff_value.mp hy
  rcases isFinite_or_infinity hynan with hyfinite | ⟨s, hinfinity⟩
  · have hquotient := rounds_div hfinite hyfinite hyvalue.ne'
    rw [nonneg_iff_value hquotient.isNaN, hquotient.value]
    exact closest_nonneg (div_nonneg hxvalue hyvalue.le)
  · obtain ⟨t, hzero⟩ : ∃ t, parts (x / y) = .zero t := by
      rw [parts_div, hinfinity]
      cases hparts : parts x with
      | notANumber | infinity _ =>
          rw [hparts] at hfinite
          cases hfinite
      | zero t | finite t _ _ _ => exact ⟨t / s, settle_zero _⟩
    have hnan : (x / y).isNaN = false := isNaN_of_isFinite (by rw [hzero]; rfl)
    rw [nonneg_iff_value hnan, value, hzero]
    exact le_rfl

end Brewhouse.Exact.Single
