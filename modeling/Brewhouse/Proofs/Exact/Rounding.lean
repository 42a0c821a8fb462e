import Brewhouse.Exact.Binary
import Mathlib

/-!
Rounding keeps order, and leaves alone what needs none. Both hold of the nearest integer, and carry over
to the members of a format, which are integers in units of their last place; so a rounded result stays on
its side of every member.
-/

namespace Brewhouse.Exact

/-! ### Nearest integers -/

theorem nearestEven_eq (q : ℚ) :
    nearestEven q = if q - ⌊q⌋ < 1 / 2 then ⌊q⌋ else if 1 / 2 < q - ⌊q⌋ then ⌊q⌋ + 1
      else if ⌊q⌋ % 2 = 0 then ⌊q⌋ else ⌊q⌋ + 1 :=
  rfl

theorem nearestEven_cases (q : ℚ) :
    nearestEven q = ⌊q⌋ ∧ q - ⌊q⌋ ≤ 1 / 2 ∨ nearestEven q = ⌊q⌋ + 1 ∧ 1 / 2 ≤ q - ⌊q⌋ := by
  rw [nearestEven_eq]
  split_ifs with hbelow habove heven
  · exact Or.inl ⟨rfl, hbelow.le⟩
  · exact Or.inr ⟨rfl, habove.le⟩
  · exact Or.inl ⟨rfl, not_lt.mp habove⟩
  · exact Or.inr ⟨rfl, not_lt.mp hbelow⟩

theorem abs_nearestEven_sub_le (q : ℚ) : |(nearestEven q : ℚ) - q| ≤ 1 / 2 := by
  have hbelow := Int.floor_le q
  have habove := Int.lt_floor_add_one q
  rw [abs_le]
  rcases nearestEven_cases q with ⟨hnearest, hrest⟩ | ⟨hnearest, hrest⟩ <;> rw [hnearest]
  · constructor <;> linarith
  · push_cast
    constructor <;> linarith

theorem nearestEven_intCast (n : ℤ) : nearestEven n = n := by
  rcases nearestEven_cases n with ⟨hnearest, -⟩ | ⟨-, hrest⟩
  · rwa [Int.floor_intCast] at hnearest
  · rw [Int.floor_intCast, sub_self] at hrest
    norm_num at hrest

theorem monotone_nearestEven : Monotone nearestEven := by
  intro p q hpq
  rcases (Int.floor_mono hpq).eq_or_lt with hfloor | hfloor
  · rw [nearestEven_eq, nearestEven_eq, ← hfloor]
    split_ifs <;> first | omega | linarith
  · have hp : nearestEven p ≤ ⌊p⌋ + 1 := by
      rcases nearestEven_cases p with ⟨hnearest, -⟩ | ⟨hnearest, -⟩ <;> omega
    have hq : ⌊q⌋ ≤ nearestEven q := by
      rcases nearestEven_cases q with ⟨hnearest, -⟩ | ⟨hnearest, -⟩ <;> omega
    omega

theorem nearestAway_eq {q : ℚ} (hq : 0 ≤ q) : nearestAway q = ⌊q + 1 / 2⌋ :=
  if_pos hq

theorem abs_nearestAway_sub_le {q : ℚ} (hq : 0 ≤ q) : |(nearestAway q : ℚ) - q| ≤ 1 / 2 := by
  have hbelow := Int.floor_le (q + 1 / 2)
  have habove := Int.lt_floor_add_one (q + 1 / 2)
  rw [nearestAway_eq hq, abs_le]
  constructor <;> linarith

theorem nearestAway_nonneg {q : ℚ} (hq : 0 ≤ q) : 0 ≤ nearestAway q := by
  rw [nearestAway_eq hq]
  exact Int.floor_nonneg.mpr (by linarith)

/-! ### Powers of two -/

theorem twoPow_pos (k : ℤ) : 0 < twoPow k :=
  zpow_pos two_pos k

theorem twoPow_add (j k : ℤ) : twoPow (j + k) = twoPow j * twoPow k :=
  zpow_add₀ two_ne_zero j k

theorem twoPow_sub (j k : ℤ) : twoPow (j - k) = twoPow j / twoPow k :=
  zpow_sub₀ two_ne_zero j k

theorem twoPow_natCast (k : ℕ) : twoPow k = 2 ^ k :=
  zpow_natCast 2 k

theorem twoPow_le_iff {j k : ℤ} : twoPow j ≤ twoPow k ↔ j ≤ k :=
  zpow_le_zpow_iff_right₀ one_lt_two

theorem twoPow_lt_iff {j k : ℤ} : twoPow j < twoPow k ↔ j < k :=
  zpow_lt_zpow_iff_right₀ one_lt_two

/-- A power of two is a whole number of smaller ones. -/
theorem twoPow_eq_mul {j k : ℤ} (h : j ≤ k) : twoPow k = ((2 ^ (k - j).toNat : ℤ) : ℚ) * twoPow j := by
  have hk : k = ((k - j).toNat : ℤ) + j := by omega
  rw [hk, twoPow_add, twoPow_natCast, ← hk]
  push_cast
  rfl

theorem twoPow_log2_le {n : ℕ} (hn : n ≠ 0) : twoPow n.log2 ≤ n := by
  rw [twoPow_natCast]
  exact_mod_cast Nat.log2_self_le hn

theorem lt_twoPow_log2 (n : ℕ) : (n : ℚ) < twoPow (n.log2 + 1) := by
  have hlt : (n : ℚ) < (2 ^ (n.log2 + 1) : ℕ) := by exact_mod_cast Nat.lt_log2_self
  rw [← Nat.cast_succ, twoPow_natCast]
  exact_mod_cast hlt

/-- The largest power of two that is not above a number. -/
theorem binade_spec {q : ℚ} (hq : 0 < q) : twoPow (binade q) ≤ q ∧ q < twoPow (binade q + 1) := by
  have hnum : 0 < q.num := Rat.num_pos.mpr hq
  have hvalue : q * q.den = (q.num.natAbs : ℚ) := by
    rw [Rat.mul_den_eq_num]
    exact (congrArg Int.cast (Int.natAbs_of_nonneg hnum.le).symm).trans (Int.cast_natCast _)
  have hlow := twoPow_log2_le (Int.natAbs_ne_zero.mpr hnum.ne')
  have hhigh := lt_twoPow_log2 q.num.natAbs
  have hdenlow := twoPow_log2_le q.den_nz
  have hdenhigh := lt_twoPow_log2 q.den
  unfold binade
  set guess : ℤ := (q.num.natAbs.log2 : ℤ) - (q.den.log2 : ℤ) with hguess
  have hden : (0 : ℚ) < q.den := by exact_mod_cast q.den_pos
  have habove : q < twoPow (guess + 1) := by
    have hsum : (q.num.natAbs.log2 : ℤ) + 1 = (guess + 1) + q.den.log2 := by omega
    rw [hsum, twoPow_add] at hhigh
    have := twoPow_pos (guess + 1)
    nlinarith
  have hbelow : twoPow (guess - 1) ≤ q := by
    have hsum : (q.num.natAbs.log2 : ℤ) = (guess - 1) + (q.den.log2 + 1) := by omega
    rw [hsum, twoPow_add] at hlow
    have := twoPow_pos (guess - 1)
    nlinarith
  dsimp only
  split_ifs with hle
  · exact ⟨hle, habove⟩
  · rw [sub_add_cancel]
    exact ⟨hbelow, not_le.mp hle⟩

theorem binade_lt_of_lt {q : ℚ} {k : ℤ} (hq : 0 < q) (h : q < twoPow k) : binade q < k :=
  twoPow_lt_iff.mp ((binade_spec hq).1.trans_lt h)

theorem le_binade_of_le {q : ℚ} {k : ℤ} (hq : 0 < q) (h : twoPow k ≤ q) : k ≤ binade q := by
  have hlt := twoPow_lt_iff.mp (h.trans_lt (binade_spec hq).2)
  omega

/-! ### Formats -/

namespace Format

variable (f : Format)

/-- The member nearest to a non-negative `q`, as if members had no limit. -/
def nearest (q : ℚ) : ℚ :=
  (nearestEven (q / twoPow (f.lastPlace q)) : ℚ) * twoPow (f.lastPlace q)

theorem roundMagnitude_eq (q : ℚ) :
    f.roundMagnitude q = if f.nearest q < twoPow f.limit then some (f.nearest q) else none :=
  rfl

theorem abs_nearest_sub_le (q : ℚ) : |f.nearest q - q| ≤ twoPow (f.lastPlace q) / 2 := by
  have hunit := twoPow_pos (f.lastPlace q)
  have hscale : f.nearest q - q =
      ((nearestEven (q / twoPow (f.lastPlace q)) : ℚ) - q / twoPow (f.lastPlace q)) *
        twoPow (f.lastPlace q) := by
    rw [sub_mul, div_mul_cancel₀ q hunit.ne']
    rfl
  rw [hscale, abs_mul, abs_of_pos hunit]
  calc _ ≤ 1 / 2 * twoPow (f.lastPlace q) :=
        mul_le_mul_of_nonneg_right (abs_nearestEven_sub_le _) hunit.le
    _ = _ := by ring

variable {f}

theorem lastPlace_of_pos {q : ℚ} (hq : 0 < q) :
    f.lastPlace q = max (binade q + 1 - f.precision) f.leastExponent :=
  if_neg hq.ne'

theorem leastExponent_le_lastPlace (q : ℚ) : f.leastExponent ≤ f.lastPlace q := by
  unfold lastPlace
  split_ifs <;> omega

theorem lastPlace_le_of_lt {q : ℚ} {k : ℤ} (hq : 0 ≤ q) (hlt : q < twoPow (k + f.precision))
    (hleast : f.leastExponent ≤ k) : f.lastPlace q ≤ k := by
  rcases hq.eq_or_lt with rfl | hq
  · rw [lastPlace, if_pos rfl]
    exact hleast
  · have := binade_lt_of_lt hq hlt
    rw [lastPlace_of_pos hq]
    omega

theorem lastPlace_mono {p q : ℚ} (hp : 0 ≤ p) (hpq : p ≤ q) : f.lastPlace p ≤ f.lastPlace q := by
  rcases hp.eq_or_lt with rfl | hp
  · rw [lastPlace, if_pos rfl]
    exact leastExponent_le_lastPlace q
  · have hbinade : binade p ≤ binade q :=
      le_binade_of_le (hp.trans_le hpq) ((binade_spec hp).1.trans hpq)
    rw [lastPlace_of_pos hp, lastPlace_of_pos (hp.trans_le hpq)]
    omega

/-- A number has no more digits than the format. -/
theorem lt_twoPow_lastPlace {q : ℚ} (hq : 0 ≤ q) : q < twoPow (f.lastPlace q + f.precision) := by
  rcases hq.eq_or_lt with rfl | hq
  · exact twoPow_pos _
  · refine (binade_spec hq).2.trans_le (twoPow_le_iff.mpr ?_)
    rw [lastPlace_of_pos hq]
    omega

/-- Unless it has the least exponent, a number has all the digits of the format. -/
theorem twoPow_lastPlace_le_of_lt {q : ℚ} (hq : 0 ≤ q) (h : f.leastExponent < f.lastPlace q) :
    twoPow (f.lastPlace q + f.precision - 1) ≤ q := by
  rcases hq.eq_or_lt with rfl | hq
  · rw [lastPlace, if_pos rfl] at h
    exact absurd h (lt_irrefl _)
  · refine (twoPow_le_iff.mpr ?_).trans (binade_spec hq).1
    rw [lastPlace_of_pos hq] at h ⊢
    omega

/-- How large the last place of a number is. -/
theorem twoPow_lastPlace_le {q : ℚ} (hq : 0 ≤ q) :
    twoPow (f.lastPlace q) ≤ q * twoPow (1 - f.precision) + twoPow f.leastExponent := by
  have hleast := twoPow_pos f.leastExponent
  have hplaces := twoPow_pos (1 - f.precision)
  rcases hq.eq_or_lt with rfl | hq
  · rw [lastPlace, if_pos rfl, zero_mul, zero_add]
  · rw [lastPlace_of_pos hq]
    rcases max_choice (binade q + 1 - f.precision) f.leastExponent with hmax | hmax <;> rw [hmax]
    · rw [add_sub_assoc, twoPow_add]
      have := mul_le_mul_of_nonneg_right (binade_spec hq).1 hplaces.le
      linarith
    · have := mul_pos hq hplaces
      linarith

/-- A rounded number stays below what has no smaller last place. -/
theorem nearest_le {q : ℚ} {n k : ℤ} (hk : f.lastPlace q ≤ k) (h : q ≤ n * twoPow k) :
    f.nearest q ≤ n * twoPow k := by
  have hunit := twoPow_pos (f.lastPlace q)
  rw [twoPow_eq_mul hk, ← mul_assoc, ← Int.cast_mul] at h ⊢
  have hle := monotone_nearestEven ((div_le_iff₀ hunit).mpr h)
  rw [nearestEven_intCast] at hle
  exact mul_le_mul_of_nonneg_right (by exact_mod_cast hle) hunit.le

/-- A rounded number stays above what has no smaller last place. -/
theorem le_nearest {q : ℚ} {n k : ℤ} (hk : f.lastPlace q ≤ k) (h : n * twoPow k ≤ q) :
    n * twoPow k ≤ f.nearest q := by
  have hunit := twoPow_pos (f.lastPlace q)
  rw [twoPow_eq_mul hk, ← mul_assoc, ← Int.cast_mul] at h ⊢
  have hle := monotone_nearestEven ((le_div_iff₀ hunit).mpr h)
  rw [nearestEven_intCast] at hle
  exact mul_le_mul_of_nonneg_right (by exact_mod_cast hle) hunit.le

/-- What needs no rounding is left alone. -/
theorem nearest_eq_self {n k : ℤ} (hk : f.lastPlace (n * twoPow k) ≤ k) :
    f.nearest (n * twoPow k) = n * twoPow k :=
  le_antisymm (nearest_le hk le_rfl) (le_nearest hk le_rfl)

@[simp]
theorem nearest_zero : f.nearest 0 = 0 := by
  rw [nearest, zero_div, ← Int.cast_zero, nearestEven_intCast, Int.cast_zero, zero_mul]

theorem nearest_nonneg {q : ℚ} (hq : 0 ≤ q) : 0 ≤ f.nearest q := by
  have h := le_nearest (f := f) (n := 0) le_rfl (q := q) (by rwa [Int.cast_zero, zero_mul])
  rwa [Int.cast_zero, zero_mul] at h

theorem nearest_mono (hprecision : 0 < f.precision) {p q : ℚ} (hp : 0 ≤ p) (hpq : p ≤ q) :
    f.nearest p ≤ f.nearest q := by
  rcases (lastPlace_mono (f := f) hp hpq).eq_or_lt with hplace | hplace
  · have hunit := twoPow_pos (f.lastPlace q)
    rw [nearest, nearest, hplace]
    have hle := monotone_nearestEven (div_le_div_of_nonneg_right hpq hunit.le)
    exact mul_le_mul_of_nonneg_right (by exact_mod_cast hle) hunit.le
  · rcases hp.eq_or_lt with rfl | hp
    · rw [nearest_zero]
      exact nearest_nonneg hpq
    · have hq := hp.trans_le hpq
      rw [lastPlace_of_pos hp, lastPlace_of_pos hq] at hplace
      have hbinade : binade p + 1 ≤ binade q := by omega
      have hbelow : p ≤ ((1 : ℤ) : ℚ) * twoPow (binade q) := by
        rw [Int.cast_one, one_mul]
        exact (binade_spec hp).2.le.trans (twoPow_le_iff.mpr hbinade)
      have habove : ((1 : ℤ) : ℚ) * twoPow (binade q) ≤ q := by
        rw [Int.cast_one, one_mul]
        exact (binade_spec hq).1
      refine (nearest_le ?_ hbelow).trans (le_nearest ?_ habove)
      · rw [lastPlace_of_pos hp]
        omega
      · rw [lastPlace_of_pos hq]
        omega

end Format

end Brewhouse.Exact
