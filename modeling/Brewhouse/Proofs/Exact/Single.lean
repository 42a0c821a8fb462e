import Brewhouse.Exact.Binary
import Mathlib

/-!
Single-precision numbers as the controller needs them: a number and its bit pattern determine each
other, numbers other than NaN are in a line, a NaN passes through sums and products, and what is
zero or NaN asks for no heat.
-/

open Float.Model (Format UnpackedFloat)
open Float.Model.UnpackedFloat (Sign)

namespace Brewhouse.Exact.Single

/-! ### Patterns -/

def parts (x : Float32) : UnpackedFloat :=
  x.toModel.unpack

theorem isNaN_iff_parts (x : Float32) : x.isNaN = true ↔ parts x = .notANumber :=
  UnpackedFloat.isNaN_iff

/-- A number that is not NaN keeps the pattern it was read from. -/
theorem toBits_ofBits {pattern : UInt32} (h : (Float32.ofBits pattern).isNaN = false) :
    (Float32.ofBits pattern).toBits = pattern := by
  have hpack : (Float32.ofBits pattern).toBits.toBitVec =
      if @UnpackedFloat.isNaNBits .binary32 pattern.toBitVec then UnpackedFloat.packedNaN .binary32
      else pattern.toBitVec := @UnpackedFloat.pack_unpack .binary32 pattern.toBitVec (by decide)
  by_cases hnan : @UnpackedFloat.isNaNBits .binary32 pattern.toBitVec = true
  · rw [if_pos hnan] at hpack
    have hparts : parts (Float32.ofBits pattern) = .notANumber := by
      change UnpackedFloat.unpack .binary32 (Float32.ofBits pattern).toBits.toBitVec = _
      rw [hpack, UnpackedFloat.unpack_packedNaN]
    rw [(isNaN_iff_parts _).mpr hparts] at h
    cases h
  · rw [if_neg hnan] at hpack
    exact UInt32.toBitVec_inj.mp hpack

/-- A number is what its parts are packed into. -/
theorem ofModel_pack_parts (x : Float32) : Float32.ofModel (.pack (parts x)) = x :=
  Float32.ofBits_toBits x

/-! ### The line of numbers

A place on the line is a class of sign and size, then the exponent, then the mantissa; below zero the
last two count backwards. -/

/-- The place of a number on the line; a NaN has none. -/
def place? : UnpackedFloat → Option (ℤ ×ₗ ℤ ×ₗ ℤ)
  | .notANumber => none
  | .infinity .negative => some (toLex (-2, toLex (0, 0)))
  | .finite .negative m e _ => some (toLex (-1, toLex (-e, -m)))
  | .zero _ => some (toLex (0, toLex (0, 0)))
  | .finite .positive m e _ => some (toLex (1, toLex (e, m)))
  | .infinity .positive => some (toLex (2, toLex (0, 0)))

theorem compare_then_compare (c e d k l : ℤ) :
    (compare e d).then (compare k l) =
      cmp (toLex (c, toLex (e, k))) (toLex (c, toLex (d, l))) := by
  symm
  apply Ordering.Compares.cmp_eq
  rcases lt_trichotomy e d with he | rfl | he
  · simp [compare_lt_iff_lt.mpr he, Prod.Lex.toLex_lt_toLex, he]
  · rcases lt_trichotomy k l with hk | rfl | hk
    · simp [compare_lt_iff_lt.mpr hk, Prod.Lex.toLex_lt_toLex, hk]
    · simp
    · simp [compare_gt_iff_gt.mpr hk, Prod.Lex.toLex_lt_toLex, hk]
  · simp [compare_gt_iff_gt.mpr he, Prod.Lex.toLex_lt_toLex, he]

theorem compare_natCast (m n : ℕ) : compare m n = compare (m : ℤ) (n : ℤ) := by
  simp only [compare, compareOfLessAndEq, Int.ofNat_lt, Int.ofNat_inj]

theorem compare_neg (e d : ℤ) : compare (-e) (-d) = (compare e d).swap := by
  rw [Int.compare_swap]
  simp only [compare, compareOfLessAndEq, Int.neg_lt_neg_iff, Int.neg_inj, eq_comm]

theorem compare_eq (u v : UnpackedFloat) :
    u.compare v = (place? u).bind fun p => (place? v).map fun q => cmp p q := by
  rcases u with (_ | _) | _ | _ | ⟨_ | _, m, e, hm⟩ <;>
    rcases v with (_ | _) | _ | _ | ⟨_ | _, n, d, hn⟩
  case finite.negative.finite.negative =>
    refine congrArg some ?_
    dsimp only
    rw [← compare_then_compare, compare_neg, compare_neg, compare_natCast, Ordering.swap_then]
  case finite.positive.finite.positive =>
    refine congrArg some ?_
    dsimp only
    rw [← compare_then_compare, compare_natCast]
  all_goals rfl

theorem isLE_cmp (p q : ℤ ×ₗ ℤ ×ₗ ℤ) : (cmp p q).isLE = true ↔ p ≤ q := by
  rw [← not_lt, ← cmp_eq_gt_iff]
  cases cmp p q <;> simp

theorem lt_iff (x y : Float32) :
    x < y ↔ ∃ p q, place? (parts x) = some p ∧ place? (parts y) = some q ∧ p < q := by
  change decide (((parts x).compare (parts y) == some .lt) = true) = true ↔ _
  rw [decide_eq_true_iff, beq_iff_eq, compare_eq]
  cases place? (parts x) <;> cases place? (parts y) <;> simp

theorem le_iff (x y : Float32) :
    x ≤ y ↔ ∃ p q, place? (parts x) = some p ∧ place? (parts y) = some q ∧ p ≤ q := by
  change decide ((((parts x).compare (parts y)).any (·.isLE)) = true) = true ↔ _
  rw [decide_eq_true_iff, compare_eq]
  cases place? (parts x) <;> cases place? (parts y) <;> simp [isLE_cmp]

theorem exists_place {x : Float32} (h : x.isNaN = false) : ∃ p, place? (parts x) = some p := by
  have hne : parts x ≠ .notANumber := fun hnan => by
    rw [(isNaN_iff_parts x).mpr hnan] at h
    cases h
  rcases hparts : parts x with (_ | _) | _ | _ | ⟨_ | _, m, e, hm⟩
  all_goals first
    | exact ⟨_, rfl⟩
    | exact absurd hparts hne

theorem not_lt_of_isNaN_left {x y : Float32} (h : x.isNaN = true) : ¬x < y := by
  intro hlt
  obtain ⟨p, q, hp, -, -⟩ := (lt_iff x y).mp hlt
  rw [(isNaN_iff_parts x).mp h] at hp
  cases hp

theorem not_lt_of_isNaN_right {x y : Float32} (h : y.isNaN = true) : ¬x < y := by
  intro hlt
  obtain ⟨p, q, -, hq, -⟩ := (lt_iff x y).mp hlt
  rw [(isNaN_iff_parts y).mp h] at hq
  cases hq

theorem lt_of_not_le {x y : Float32} (hx : x.isNaN = false) (hy : y.isNaN = false)
    (h : ¬y ≤ x) : x < y := by
  obtain ⟨p, hp⟩ := exists_place hx
  obtain ⟨q, hq⟩ := exists_place hy
  rw [le_iff] at h
  rw [lt_iff]
  exact ⟨p, q, hp, hq, lt_of_not_ge fun hle => h ⟨q, p, hq, hp, hle⟩⟩

theorem le_of_not_lt {x y : Float32} (hx : x.isNaN = false) (hy : y.isNaN = false)
    (h : ¬y < x) : x ≤ y := by
  obtain ⟨p, hp⟩ := exists_place hx
  obtain ⟨q, hq⟩ := exists_place hy
  rw [lt_iff] at h
  rw [le_iff]
  exact ⟨p, q, hp, hq, le_of_not_gt fun hlt => h ⟨q, p, hq, hp, hlt⟩⟩

/-- What is in order are numbers. -/
theorem isNaN_of_le {x y : Float32} (h : x ≤ y) : x.isNaN = false ∧ y.isNaN = false := by
  obtain ⟨p, q, hp, hq, -⟩ := (le_iff x y).mp h
  constructor <;> refine Bool.eq_false_of_not_eq_true fun hnan => ?_
  · rw [(isNaN_iff_parts x).mp hnan] at hp
    cases hp
  · rw [(isNaN_iff_parts y).mp hnan] at hq
    cases hq

theorem lt_of_lt_of_le {x y z : Float32} (hxy : x < y) (hyz : y ≤ z) : x < z := by
  obtain ⟨p, q, hp, hq, hpq⟩ := (lt_iff x y).mp hxy
  obtain ⟨q', r, hq', hr, hqr⟩ := (le_iff y z).mp hyz
  obtain rfl : q = q' := Option.some.inj (hq.symm.trans hq')
  exact (lt_iff x z).mpr ⟨p, r, hp, hr, hpq.trans_le hqr⟩

theorem le_of_lt {x y : Float32} (h : x < y) : x ≤ y := by
  obtain ⟨p, q, hp, hq, hpq⟩ := (lt_iff x y).mp h
  exact (le_iff x y).mpr ⟨p, q, hp, hq, hpq.le⟩

theorem not_le_of_lt {x y : Float32} (h : x < y) : ¬y ≤ x := by
  intro hle
  obtain ⟨p, q, hp, hq, hpq⟩ := (lt_iff x y).mp h
  obtain ⟨q', p', hq', hp', hqp⟩ := (le_iff y x).mp hle
  obtain rfl : p = p' := Option.some.inj (hp.symm.trans hp')
  obtain rfl : q = q' := Option.some.inj (hq.symm.trans hq')
  exact absurd hqp hpq.not_ge

theorem le_refl {x : Float32} (h : x.isNaN = false) : x ≤ x := by
  obtain ⟨p, hp⟩ := exists_place h
  exact (le_iff x x).mpr ⟨p, p, hp, hp, le_rfl⟩

theorem le_trans {x y z : Float32} (hxy : x ≤ y) (hyz : y ≤ z) : x ≤ z := by
  obtain ⟨p, q, hp, hq, hpq⟩ := (le_iff x y).mp hxy
  obtain ⟨q', r, hq', hr, hqr⟩ := (le_iff y z).mp hyz
  obtain rfl : q = q' := Option.some.inj (hq.symm.trans hq')
  exact (le_iff x z).mpr ⟨p, r, hp, hr, hpq.trans hqr⟩

/-- The smaller of two numbers is within a bound if one of them is. -/
theorem least_le_iff {a b : Float32} (ha : a.isNaN = false) (hb : b.isNaN = false) (z : Float32) :
    least a b ≤ z ↔ a ≤ z ∨ b ≤ z := by
  rw [least, ha, if_neg Bool.false_ne_true]
  by_cases hlt : b < a
  · rw [if_pos hlt]
    exact ⟨Or.inr, fun h => h.elim (le_trans (le_of_lt hlt)) id⟩
  · rw [if_neg hlt]
    exact ⟨Or.inl, fun h => h.elim id (le_trans (le_of_not_lt ha hb hlt))⟩

/-- With a bound that is a number, the smaller of the two is a number too and within the bound. -/
theorem least_le (a : Float32) {b : Float32} (hb : b.isNaN = false) :
    (least a b).isNaN = false ∧ least a b ≤ b := by
  unfold least
  cases ha : a.isNaN with
  | true => exact ⟨by simpa using hb, by simpa using le_refl hb⟩
  | false =>
      by_cases hlt : b < a
      · simpa [hlt] using And.intro hb (le_refl hb)
      · simpa [hlt] using And.intro ha (le_of_not_lt ha hb hlt)

/-! ### NaN and zero -/

/-- The parts of a result after it has been put into a pattern. -/
def settle (u : UnpackedFloat) : UnpackedFloat :=
  UnpackedFloat.unpack .binary32 (UnpackedFloat.pack .binary32 u)

@[simp]
theorem settle_notANumber : settle .notANumber = .notANumber := rfl

@[simp]
theorem settle_zero (s : Sign) : settle (.zero s) = .zero s := by
  cases s <;> rfl

theorem parts_add (x y : Float32) :
    parts (x + y) = settle (UnpackedFloat.add .binary32 (parts x) (parts y)) := rfl

theorem parts_sub (x y : Float32) :
    parts (x - y) = settle (UnpackedFloat.sub .binary32 (parts x) (parts y)) := rfl

theorem parts_mul (x y : Float32) :
    parts (x * y) = settle (UnpackedFloat.mul .binary32 (parts x) (parts y)) := rfl

theorem parts_div (x y : Float32) :
    parts (x / y) = settle (UnpackedFloat.div .binary32 (parts x) (parts y)) := rfl

theorem isNaN_add_of_left {x : Float32} (y : Float32) (h : x.isNaN = true) :
    (x + y).isNaN = true := by
  rw [isNaN_iff_parts] at h ⊢
  rw [parts_add, h]
  cases parts y <;> simp [UnpackedFloat.add]

theorem isNaN_sub_of_right (x : Float32) {y : Float32} (h : y.isNaN = true) :
    (x - y).isNaN = true := by
  rw [isNaN_iff_parts] at h ⊢
  rw [parts_sub, h]
  cases parts x <;> simp [UnpackedFloat.sub]

theorem isNaN_mul_of_right (x : Float32) {y : Float32} (h : y.isNaN = true) :
    (x * y).isNaN = true := by
  rw [isNaN_iff_parts] at h ⊢
  rw [parts_mul, h]
  cases parts x <;> simp [UnpackedFloat.mul]

/-- A NaN is not moved into a range. -/
theorem clamp?_of_isNaN {low high x r : Float32} (hx : x.isNaN = true)
    (hr : clamp? low high x = some r) : r.isNaN = true := by
  unfold clamp? at hr
  split at hr
  · simp only [not_lt_of_isNaN_left hx, not_lt_of_isNaN_right hx, if_false, Option.some.injEq] at hr
    rwa [← hr]
  · cases hr

/-- A number in a range, or no number. -/
def Within (low high x : Float32) : Prop :=
  x.isNaN = true ∨ low ≤ x ∧ x ≤ high

/-- What is moved into a range that is in order is in it afterwards, unless it is no number. -/
theorem exists_clamp {low high : Float32} (h : low ≤ high) (x : Float32) :
    ∃ moved, clamp? low high x = some moved ∧ Within low high moved := by
  obtain ⟨hlow, hhigh⟩ := isNaN_of_le h
  refine ⟨_, if_pos h, ?_⟩
  cases hx : x.isNaN with
  | true => exact Or.inl (clamp?_of_isNaN hx (if_pos h))
  | false =>
      right
      by_cases hbelow : x < low
      · rw [if_pos hbelow, if_neg fun habove => not_le_of_lt habove h]
        exact ⟨le_refl hlow, h⟩
      · rw [if_neg hbelow]
        by_cases habove : high < x
        · rw [if_pos habove]
          exact ⟨h, le_refl hhigh⟩
        · rw [if_neg habove]
          exact ⟨le_of_not_lt hlow hx hbelow, le_of_not_lt hx hhigh habove⟩

/-- Zero or no number: products keep it, and no whole number but zero comes of it. -/
def Negligible (x : Float32) : Prop :=
  parts x = .notANumber ∨ ∃ s, parts x = .zero s

theorem negligible_zero : Negligible 0 := Or.inr ⟨.positive, rfl⟩

theorem Negligible.div {x : Float32} (hx : Negligible x) (y : Float32) : Negligible (x / y) := by
  unfold Negligible
  rw [parts_div]
  rcases hx with hx | ⟨s, hx⟩ <;> rw [hx] <;> cases parts y <;> simp [UnpackedFloat.div]

theorem Negligible.mul {x : Float32} (hx : Negligible x) (y : Float32) : Negligible (x * y) := by
  unfold Negligible
  rw [parts_mul]
  rcases hx with hx | ⟨s, hx⟩ <;> rw [hx] <;> cases parts y <;> simp [UnpackedFloat.mul]

theorem Negligible.not_one_lt {x : Float32} (hx : Negligible x) : ¬1 < x := by
  intro hlt
  obtain ⟨p, q, hp, hq, hpq⟩ := (lt_iff 1 x).mp hlt
  rcases hx with hx | ⟨s, hx⟩
  · rw [hx] at hq
    cases hq
  · rw [hx] at hq
    cases hq
    cases hp
    exact absurd hpq (by decide)

theorem nearestWord_of_negligible {x : Float32} (hx : Negligible x) : nearestWord x = 0 := by
  rw [← ofModel_pack_parts x]
  rcases hx with hx | ⟨s, hx⟩
  · rw [hx]
    decide
  · rw [hx]
    cases s <;> decide +kernel

end Brewhouse.Exact.Single
