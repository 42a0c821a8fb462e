import Brewhouse.Proofs.Exact.Single
import Brewhouse.Proofs.Exact.Significand

/-!
Single-precision numbers by their values. Numbers other than NaN are in the order of their values, every
value is its own nearest one, and going to the nearest value keeps order.
-/

namespace Brewhouse.Exact.Single

open Float.Model (UnpackedFloat)
open Float.Model.Format (binary32)
open Float.Model.UnpackedFloat

/-! ### Values -/

def signed : Sign → ℚ → ℚ
  | .positive, q => q
  | .negative, q => -q

theorem signed_zero (s : Sign) : signed s 0 = 0 := by
  cases s
  · exact neg_zero
  · rfl

theorem abs_signed (s : Sign) (q : ℚ) : |signed s q| = |q| := by
  cases s
  · exact abs_neg q
  · rfl

/-- The value that parts stand for. An infinity counts as the power of two that numbers do not reach, and
a NaN as zero. -/
def worth : UnpackedFloat → ℚ
  | .notANumber | .zero _ => 0
  | .infinity s => signed s (twoPow 128)
  | .finite s m e _ => signed s (m * twoPow e)

/-- The value of a number. -/
def value (x : Float32) : ℚ :=
  worth (parts x)

theorem value_zero : value 0 = 0 := rfl

theorem value_one : value 1 = 1 := by
  have hparts : parts 1 = .finite .positive 8388608 (-23) (by decide) := rfl
  rw [value, hparts, worth, signed]
  norm_num [twoPow]

/-- The parts are such as a pattern can hold. -/
def Held : UnpackedFloat → Prop
  | .finite _ m e _ => Fits m e ∧ e ≤ 104
  | _ => True

theorem toNat_leadingOne (m : BitVec 23) : (1#1 ++ m).toNat = 2 ^ 23 + m.toNat := by
  rw [BitVec.toNat_append, ← Nat.shiftLeft_add_eq_or_of_lt m.isLt]
  rfl

theorem held_parts (x : Float32) : Held (parts x) := by
  unfold parts Float32.Model.unpack unpack
  dsimp only
  set exponent : BitVec 8 := @unpackExponent binary32 x.toModel.toBits.toBitVec
  have hmantissa : (@unpackMantissa binary32 x.toModel.toBits.toBitVec).toNat < 2 ^ 23 :=
    BitVec.isLt _
  have hbias : (binary32.exponentBias : ℤ) = 127 := rfl
  split_ifs with hones hzero hnone hnone'
  · trivial
  · trivial
  · trivial
  · rw [hnone]
    exact ⟨⟨by omega, le_rfl, Or.inl rfl⟩, by decide⟩
  · have hlow : exponent.toNat ≠ 0 := fun h => hnone (BitVec.eq_of_toNat_eq h)
    have hhigh : exponent.toNat ≠ 255 := fun h => hones (BitVec.eq_of_toNat_eq h)
    have hlt := exponent.isLt
    rw [Held, toNat_leadingOne, hbias]
    exact ⟨⟨by omega, by push_cast; omega, Or.inr (by omega)⟩, by push_cast; omega⟩

theorem unpack_normal (s : Sign) {exponent : BitVec 8} (mantissa : BitVec 23)
    (hones : exponent ≠ -1#8) (hzero : exponent ≠ 0#8) :
    unpack binary32 (packComponents binary32 s exponent mantissa) =
      .finite s (2 ^ 23 + mantissa.toNat) (exponent.toNat - 150) (by omega) := by
  simp only [unpack, unpackMantissa_packComponents, unpackExponent_packComponents,
    unpackSign_packComponents, Sign.ofBitVec_toBitVec, if_neg hones, if_neg hzero,
    toNat_leadingOne]
  rfl

theorem unpack_subnormal (s : Sign) {mantissa : BitVec 23} (h : 0 < mantissa.toNat) :
    unpack binary32 (packComponents binary32 s 0#8 mantissa) = .finite s mantissa.toNat (-149) h := by
  have hones : 0#8 ≠ -1#8 := by decide
  have hsome : mantissa ≠ 0#23 := by
    rintro rfl
    exact absurd h (lt_irrefl _)
  simp only [unpack, unpackMantissa_packComponents, unpackExponent_packComponents,
    unpackSign_packComponents, Sign.ofBitVec_toBitVec, if_neg hones, dif_neg hsome, if_true]
  rfl

theorem settle_normal (s : Sign) {m : ℕ} {e : ℤ} (hfull : 2 ^ 23 ≤ m) (hlt : m < 2 ^ 24)
    (hleast : -149 ≤ e) (he : e ≤ 104) (hm : 0 < m) :
    settle (.finite s m e hm) = .finite s m e hm := by
  have hbias : (binary32.exponentBias : ℤ) = 127 := rfl
  have hlog : m.log2 = 23 := by
    have := (Nat.le_log2 hm.ne').mpr hfull
    have := (Nat.log2_lt hm.ne').mpr hlt
    omega
  rw [settle, pack]
  dsimp only
  rw [hbias, if_neg (by push_cast; omega), if_pos (by rw [hlog]; rfl)]
  set biased := (e + 127 + (23 : ℕ)).toNat with hbiased
  have hexponent : (BitVec.ofNat 8 biased).toNat = biased := by
    rw [BitVec.toNat_ofNat]
    omega
  have hones : BitVec.ofNat 8 biased ≠ -1#8 := by
    rw [← BitVec.toNat_ne_iff_ne, hexponent]
    change biased ≠ 255
    omega
  have hzero : BitVec.ofNat 8 biased ≠ 0#8 := by
    rw [← BitVec.toNat_ne_iff_ne, hexponent]
    change biased ≠ 0
    omega
  rw [unpack_normal s _ hones hzero]
  congr 1
  · rw [BitVec.toNat_ofNat]
    omega
  · rw [hexponent]
    omega

theorem settle_subnormal (s : Sign) {m : ℕ} (hlt : m < 2 ^ 23) (hm : 0 < m) :
    settle (.finite s m (-149) hm) = .finite s m (-149) hm := by
  have hlog : m.log2 + 1 ≠ binary32.mantissaBits := by
    have := (Nat.log2_lt hm.ne').mpr hlt
    change m.log2 + 1 ≠ 24
    omega
  have hmantissa : (BitVec.ofNat 23 m).toNat = m := by
    rw [BitVec.toNat_ofNat]
    exact Nat.mod_eq_of_lt hlt
  rw [settle, pack]
  dsimp only
  rw [if_neg (by decide), if_neg hlog, unpack_subnormal s (hmantissa.symm ▸ hm)]
  congr 1

theorem settle_overflow (s : Sign) {m : ℕ} {e : ℤ} (he : 104 < e) (hm : 0 < m) :
    settle (.finite s m e hm) = .infinity s := by
  have hbias : (binary32.exponentBias : ℤ) = 127 := rfl
  rw [settle, pack]
  dsimp only
  rw [hbias, if_pos (by push_cast; omega)]
  cases s <;> rfl

theorem settle_of_fits {m : ℕ} {e : ℤ} (h : Fits m e) (s : Sign) (hm : 0 < m) :
    settle (.finite s m e hm) = if e ≤ 104 then .finite s m e hm else .infinity s := by
  by_cases he : e ≤ 104
  · rw [if_pos he]
    by_cases hnormal : 2 ^ 23 ≤ m
    · exact settle_normal s hnormal h.lt h.least_le he hm
    · obtain rfl : e = -149 := h.full.resolve_right hnormal
      exact settle_subnormal s (not_le.mp hnormal) hm
  · rw [if_neg he]
    exact settle_overflow s (not_le.mp he) hm

theorem settle_held {u : UnpackedFloat} (h : Held u) : settle u = u := by
  rcases u with (_ | _) | _ | s | ⟨s, m, e, hm⟩
  · rfl
  · rfl
  · rfl
  · exact settle_zero s
  · rw [settle_of_fits h.1, if_pos h.2]

/-! ### Order -/

theorem Fits.magnitude_lt {m n : ℕ} {e d : ℤ} (h : Fits m e) (h' : Fits n d)
    (hlt : e < d ∨ e = d ∧ m < n) : (m : ℚ) * twoPow e < n * twoPow d := by
  rcases hlt with hlt | ⟨rfl, hlt⟩
  · have hfull : 2 ^ 23 ≤ n := h'.full.resolve_left (by have := h.least_le; omega)
    calc (m : ℚ) * twoPow e < 2 ^ 24 * twoPow e :=
          mul_lt_mul_of_pos_right (by exact_mod_cast h.lt) (twoPow_pos e)
      _ = 2 ^ 23 * twoPow (e + 1) := by
          rw [twoPow_add]
          norm_num [twoPow]
          ring
      _ ≤ 2 ^ 23 * twoPow d := by
          have := twoPow_le_iff.mpr (Int.add_one_le_of_lt hlt)
          linarith
      _ ≤ n * twoPow d :=
          mul_le_mul_of_nonneg_right (by exact_mod_cast hfull) (twoPow_pos d).le
  · exact mul_lt_mul_of_pos_right (by exact_mod_cast hlt) (twoPow_pos e)

theorem Fits.magnitude_lt_top {m : ℕ} {e : ℤ} (h : Fits m e) (he : e ≤ 104) :
    (m : ℚ) * twoPow e < twoPow 128 := by
  calc (m : ℚ) * twoPow e < 2 ^ 24 * twoPow e :=
        mul_lt_mul_of_pos_right (by exact_mod_cast h.lt) (twoPow_pos e)
    _ = twoPow (24 + e) := by rw [twoPow_add]; rfl
    _ ≤ twoPow 128 := twoPow_le_iff.mpr (by omega)

theorem magnitude_pos {m : ℕ} (hm : 0 < m) (e : ℤ) : 0 < (m : ℚ) * twoPow e :=
  mul_pos (by exact_mod_cast hm) (twoPow_pos e)

/-- Numbers further up the line have larger values. -/
theorem worth_lt {u v : UnpackedFloat} (hu : Held u) (hv : Held v) {p q : ℤ ×ₗ ℤ ×ₗ ℤ}
    (hp : place? u = some p) (hq : place? v = some q) (hlt : p < q) : worth u < worth v := by
  have htop := twoPow_pos 128
  rcases u with (_ | _) | _ | _ | ⟨_ | _, m, e, hm⟩ <;>
    rcases v with (_ | _) | _ | _ | ⟨_ | _, n, d, hn⟩ <;> cases hp <;> cases hq <;>
    simp [Prod.Lex.toLex_lt_toLex] at hlt <;> simp only [worth, signed]
  case finite.positive.finite.positive.refl.refl => exact hu.1.magnitude_lt hv.1 hlt
  case finite.negative.finite.negative.refl.refl =>
    exact neg_lt_neg (hv.1.magnitude_lt hu.1 (hlt.imp_right fun h => ⟨h.1.symm, h.2⟩))
  case infinity.negative.finite.negative.refl.refl =>
    exact neg_lt_neg (hv.1.magnitude_lt_top hv.2)
  case finite.positive.infinity.positive.refl.refl => exact hu.1.magnitude_lt_top hu.2
  case infinity.negative.finite.positive.refl.refl | zero.finite.positive.refl.refl =>
    linarith [magnitude_pos hn d]
  case finite.negative.infinity.positive.refl.refl | finite.negative.zero.refl.refl =>
    linarith [magnitude_pos hm e]
  case finite.negative.finite.positive.refl.refl =>
    linarith [magnitude_pos hm e, magnitude_pos hn d]
  all_goals linarith

theorem worth_eq {u v : UnpackedFloat} {p : ℤ ×ₗ ℤ ×ₗ ℤ} (hp : place? u = some p)
    (hq : place? v = some p) : worth u = worth v := by
  rcases u with (_ | _) | _ | _ | ⟨_ | _, m, e, hm⟩ <;>
    rcases v with (_ | _) | _ | _ | ⟨_ | _, n, d, hn⟩ <;> cases hp <;>
    simp [place?] at hq <;> simp [worth, hq]

/-- Numbers are in the order of their values. -/
theorem le_iff_value {x y : Float32} (hx : x.isNaN = false) (hy : y.isNaN = false) :
    x ≤ y ↔ value x ≤ value y := by
  obtain ⟨p, hp⟩ := exists_place hx
  obtain ⟨q, hq⟩ := exists_place hy
  have hle : x ≤ y ↔ p ≤ q := by
    rw [le_iff]
    constructor
    · rintro ⟨p', q', hp', hq', h⟩
      rw [hp] at hp'
      rw [hq] at hq'
      cases hp'
      cases hq'
      exact h
    · intro h
      exact ⟨p, q, hp, hq, h⟩
  rw [hle]
  rcases lt_trichotomy p q with hlt | rfl | hlt
  · exact iff_of_true hlt.le (worth_lt (held_parts x) (held_parts y) hp hq hlt).le
  · exact iff_of_true le_rfl (worth_eq hp hq).le
  · exact iff_of_false hlt.not_ge (worth_lt (held_parts y) (held_parts x) hq hp hlt).not_ge

/-! ### Nearest values -/

/-- The value nearest to `q`; from `2 ^ 128` on there is only infinity. -/
def closest (q : ℚ) : ℚ :=
  if q < 0 then -min (Format.single.nearest (-q)) (twoPow 128)
  else min (Format.single.nearest q) (twoPow 128)

theorem closest_of_nonneg {q : ℚ} (hq : 0 ≤ q) :
    closest q = min (Format.single.nearest q) (twoPow 128) :=
  if_neg hq.not_gt

theorem closest_neg (q : ℚ) : closest (-q) = -closest q := by
  unfold closest
  rcases lt_trichotomy q 0 with hq | rfl | hq
  · rw [if_neg (by linarith), if_pos hq, neg_neg]
  · simp [(twoPow_pos 128).le]
  · rw [if_pos (by linarith), if_neg hq.not_gt, neg_neg]

theorem closest_signed (s : Sign) (q : ℚ) : closest (signed s q) = signed s (closest q) := by
  cases s
  · exact closest_neg q
  · rfl

theorem closest_nonneg {q : ℚ} (hq : 0 ≤ q) : 0 ≤ closest q := by
  rw [closest_of_nonneg hq]
  exact le_min (Format.nearest_nonneg hq) (twoPow_pos 128).le

theorem closest_nonpos {q : ℚ} (hq : q ≤ 0) : closest q ≤ 0 := by
  have h := closest_nonneg (neg_nonneg.mpr hq)
  rw [closest_neg] at h
  linarith

theorem closest_mono : Monotone closest := by
  have hmono : ∀ {p q : ℚ}, 0 ≤ p → p ≤ q → closest p ≤ closest q := by
    intro p q hp hpq
    rw [closest_of_nonneg hp, closest_of_nonneg (hp.trans hpq)]
    exact min_le_min_right _ (Format.nearest_mono (by decide) hp hpq)
  intro p q hpq
  rcases le_total 0 p with hp | hp
  · exact hmono hp hpq
  · rcases le_total 0 q with hq | hq
    · have hbelow := closest_nonneg (neg_nonneg.mpr hp)
      rw [closest_neg] at hbelow
      linarith [closest_nonneg hq]
    · have hle := hmono (neg_nonneg.mpr hq) (neg_le_neg hpq)
      rw [closest_neg, closest_neg] at hle
      linarith

/-- What is a multiple of its last place is its own nearest value. -/
theorem closest_mul_twoPow {n k : ℤ} (hn : 0 ≤ n) (hk : Format.single.lastPlace (n * twoPow k) ≤ k)
    (hle : n * twoPow k ≤ twoPow 128) : closest (n * twoPow k) = n * twoPow k := by
  have hnonneg : (0 : ℚ) ≤ n * twoPow k := mul_nonneg (by exact_mod_cast hn) (twoPow_pos k).le
  rw [closest_of_nonneg hnonneg, Format.nearest_eq_self hk, min_eq_left hle]

theorem closest_twoPow {k : ℤ} (hlow : -149 ≤ k) (hhigh : k ≤ 128) :
    closest (twoPow k) = twoPow k := by
  have hone : twoPow k = ((1 : ℤ) : ℚ) * twoPow k := by rw [Int.cast_one, one_mul]
  rw [hone]
  refine closest_mul_twoPow zero_le_one ?_ (hone ▸ twoPow_le_iff.mpr hhigh)
  rw [← hone]
  refine Format.lastPlace_le_of_lt (twoPow_pos k).le (twoPow_lt_iff.mpr ?_) hlow
  exact lt_add_of_pos_right k (by decide)

theorem closest_zero : closest 0 = 0 := by
  rw [closest_of_nonneg le_rfl, Format.nearest_zero, min_eq_left (twoPow_pos 128).le]

theorem closest_worth {u : UnpackedFloat} (h : Held u) : closest (worth u) = worth u := by
  rcases u with s | _ | s | ⟨s, m, e, hm⟩ <;> rw [worth]
  · rw [closest_signed, closest_twoPow (by decide) le_rfl]
  · exact closest_zero
  · exact closest_zero
  · obtain ⟨hfits, he⟩ := h
    have hplace : Format.single.lastPlace (m * twoPow e) ≤ e := by
      refine Format.lastPlace_le_of_lt (magnitude_pos hm e).le ?_ hfits.least_le
      have hlt : (m : ℚ) < twoPow 24 := (Nat.cast_lt.mpr hfits.lt).trans_eq (by norm_num [twoPow])
      rw [add_comm, twoPow_add]
      exact mul_lt_mul_of_pos_right hlt (twoPow_pos e)
    have hle := (hfits.magnitude_lt_top he).le
    rw [closest_signed]
    rw [← Int.cast_natCast m] at hplace hle ⊢
    rw [closest_mul_twoPow (Int.natCast_nonneg m) hplace hle]

/-- The number is `q`, rounded. -/
structure Rounds (x : Float32) (q : ℚ) : Prop where
  isNaN : x.isNaN = false
  value : value x = closest q

theorem rounds_self {x : Float32} (h : x.isNaN = false) : Rounds x (value x) :=
  ⟨h, (closest_worth (held_parts x)).symm⟩

/-- Rounding keeps order. -/
theorem Rounds.le {x y : Float32} {p q : ℚ} (hx : Rounds x p) (hy : Rounds y q) (h : p ≤ q) : x ≤ y := by
  rw [le_iff_value hx.isNaN hy.isNaN, hx.value, hy.value]
  exact closest_mono h

end Brewhouse.Exact.Single
