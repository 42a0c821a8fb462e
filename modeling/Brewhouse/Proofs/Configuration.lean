import Brewhouse.Configuration
import Brewhouse.Proofs.Exact.Single

/-!
Which configurations are accepted. The rules ask for numbers to be in order, and a configuration is refused
when two of them are in the wrong order. A NaN is in no order with anything, so it breaks no rule that is
asked in this way: it is refused as the ceiling of the targets only, where the order itself is asked for.
-/

namespace Brewhouse

namespace Exact.Single

/-- One of the two is NaN, and every comparison of them is false. -/
def Unordered (x y : Float32) : Prop :=
  x.isNaN = true ∨ y.isNaN = true

variable {x y : Float32}

theorem le_or_unordered (h : ¬y < x) : x ≤ y ∨ Unordered x y := by
  by_cases hx : x.isNaN = true
  · exact Or.inr (Or.inl hx)
  by_cases hy : y.isNaN = true
  · exact Or.inr (Or.inr hy)
  exact Or.inl (le_of_not_lt (Bool.eq_false_iff.mpr hx) (Bool.eq_false_iff.mpr hy) h)

theorem not_lt_iff (x y : Float32) : ¬y < x ↔ x ≤ y ∨ Unordered x y := by
  refine ⟨le_or_unordered, ?_⟩
  rintro (hle | hx | hy) hlt
  · exact not_le_of_lt hlt hle
  · exact not_lt_of_isNaN_right hx hlt
  · exact not_lt_of_isNaN_left hy hlt

theorem not_le_iff (x y : Float32) : ¬y ≤ x ↔ x < y ∨ Unordered x y := by
  constructor
  · intro h
    rcases le_or_unordered fun hlt => h (le_of_lt hlt) with hle | hnan
    · obtain ⟨hx, hy⟩ := isNaN_of_le hle
      exact Or.inl (lt_of_not_le hx hy h)
    · exact Or.inr hnan
  · rintro (hlt | hx | hy) hle
    · exact not_le_of_lt hlt hle
    · exact absurd (hx.symm.trans (isNaN_of_le hle).2) (by decide)
    · exact absurd (hy.symm.trans (isNaN_of_le hle).1) (by decide)

end Exact.Single

namespace Configuration

open Exact.Single

/-- Two numbers that are to be in order. -/
structure Rule where
  low : Float32
  high : Float32
  /-- Whether they are to be different. -/
  strict : Bool

def Rule.Holds (r : Rule) : Prop :=
  if r.strict then r.low < r.high else r.low ≤ r.high

def Rule.Unbroken (r : Rule) : Prop :=
  r.Holds ∨ Unordered r.low r.high

/-- What is to be in order in a configuration. -/
def rules (c : Configuration) : List Rule :=
  [⟨0, c.proportionalGain, false⟩, ⟨0, c.integralGain, false⟩, ⟨0, c.derivativeGain, false⟩,
    ⟨c.minSetpoint, c.maxSetpoint, true⟩, ⟨c.maxSetpoint, c.maxTarget, false⟩,
    ⟨0, c.maxTarget, false⟩, ⟨c.maxTarget, 100, true⟩, ⟨0, c.vesselVolume, true⟩,
    ⟨0, c.heatLoss, false⟩]

def numbers (c : Configuration) : List Float32 :=
  [c.proportionalGain, c.integralGain, c.derivativeGain, c.minSetpoint, c.maxSetpoint, c.maxTarget,
    c.vesselVolume, c.heatLoss]

/-- All is in order. -/
structure Sound (c : Configuration) : Prop where
  ordered : ∀ r ∈ c.rules, r.Holds
  heaterPeriod : 0 < c.heaterPeriod
  linkBaud : 0 < c.linkBaud

theorem Rule.Holds.isNaN {r : Rule} (h : r.Holds) : r.low.isNaN = false ∧ r.high.isNaN = false := by
  unfold Holds at h
  split at h
  · exact isNaN_of_le (le_of_lt h)
  · exact isNaN_of_le h

theorem Rule.Unbroken.holds {r : Rule} (h : r.Unbroken) (hlow : r.low.isNaN = false)
    (hhigh : r.high.isNaN = false) : r.Holds := by
  rcases h with hholds | hnan | hnan
  · exact hholds
  · exact absurd (hlow.symm.trans hnan) (by decide)
  · exact absurd (hhigh.symm.trans hnan) (by decide)

/-- What a configuration is not refused for. -/
theorem fault?_eq_none (c : Configuration) :
    c.fault? = none ↔ ¬c.proportionalGain < 0 ∧ ¬c.integralGain < 0 ∧ ¬c.derivativeGain < 0 ∧
      c.heaterPeriod ≠ 0 ∧ ¬c.maxSetpoint ≤ c.minSetpoint ∧ ¬c.maxTarget < c.maxSetpoint ∧
      0 ≤ c.maxTarget ∧ c.maxTarget < 100 ∧ ¬c.vesselVolume ≤ 0 ∧ ¬c.heatLoss < 0 ∧
      c.linkBaud ≠ 0 := by
  simp [fault?, ite_eq_iff, and_assoc]

/-- A configuration is accepted if and only if no two numbers are in the wrong order, the ceiling is a number
and neither the heater's window nor the link is without a rate. -/
theorem fault?_eq_none_iff (c : Configuration) :
    c.fault? = none ↔ (∀ r ∈ c.rules, r.Unbroken) ∧ c.maxTarget.isNaN = false ∧ 0 < c.heaterPeriod ∧
      0 < c.linkBaud := by
  rw [fault?_eq_none]
  constructor
  · rintro ⟨hp, hi, hd, hperiod, hsetpoints, hceiling, hlow, hhigh, hvolume, hloss, hbaud⟩
    refine ⟨?_, (isNaN_of_le hlow).2, UInt32.pos_iff_ne_zero.mpr hperiod, UInt32.pos_iff_ne_zero.mpr hbaud⟩
    simp only [rules, List.forall_mem_cons]
    exact ⟨(not_lt_iff _ _).mp hp, (not_lt_iff _ _).mp hi, (not_lt_iff _ _).mp hd,
      (not_le_iff _ _).mp hsetpoints, (not_lt_iff _ _).mp hceiling, Or.inl hlow, Or.inl hhigh,
      (not_le_iff _ _).mp hvolume, (not_lt_iff _ _).mp hloss, List.forall_mem_nil _⟩
  · rintro ⟨hrules, hnumber, hperiod, hbaud⟩
    simp only [rules, List.forall_mem_cons] at hrules
    obtain ⟨hp, hi, hd, hsetpoints, hceiling, hlow, hhigh, hvolume, hloss, -⟩ := hrules
    have hzero : (0 : Float32).isNaN = false := by decide +kernel
    have hhundred : (100 : Float32).isNaN = false := by decide +kernel
    exact ⟨(not_lt_iff _ _).mpr hp, (not_lt_iff _ _).mpr hi, (not_lt_iff _ _).mpr hd,
      UInt32.pos_iff_ne_zero.mp hperiod, (not_le_iff _ _).mpr hsetpoints, (not_lt_iff _ _).mpr hceiling,
      hlow.holds hzero hnumber, hhigh.holds hnumber hhundred, (not_le_iff _ _).mpr hvolume,
      (not_lt_iff _ _).mpr hloss, UInt32.pos_iff_ne_zero.mp hbaud⟩

/-- In a sound configuration every number is one. -/
theorem Sound.isNaN {c : Configuration} (h : c.Sound) : ∀ x ∈ c.numbers, x.isNaN = false := by
  have hordered := h.ordered
  simp only [rules, List.forall_mem_cons] at hordered
  obtain ⟨hp, hi, hd, hsetpoints, hceiling, -, -, hvolume, hloss, -⟩ := hordered
  simp only [numbers, List.forall_mem_cons]
  exact ⟨hp.isNaN.2, hi.isNaN.2, hd.isNaN.2, hsetpoints.isNaN.1, hsetpoints.isNaN.2, hceiling.isNaN.2,
    hvolume.isNaN.2, hloss.isNaN.2, List.forall_mem_nil _⟩

/-- The numbers that a rule is about are numbers of the configuration, or zero or a hundred. -/
theorem isNaN_of_mem_rules {c : Configuration} (h : ∀ x ∈ c.numbers, x.isNaN = false) :
    ∀ r ∈ c.rules, r.low.isNaN = false ∧ r.high.isNaN = false := by
  have hzero : (0 : Float32).isNaN = false := by decide +kernel
  have hhundred : (100 : Float32).isNaN = false := by decide +kernel
  simp only [numbers, List.forall_mem_cons] at h
  obtain ⟨hp, hi, hd, hmin, hmax, htarget, hvolume, hloss, -⟩ := h
  simp only [rules, List.forall_mem_cons]
  exact ⟨⟨hzero, hp⟩, ⟨hzero, hi⟩, ⟨hzero, hd⟩, ⟨hmin, hmax⟩, ⟨hmax, htarget⟩, ⟨hzero, htarget⟩,
    ⟨htarget, hhundred⟩, ⟨hzero, hvolume⟩, ⟨hzero, hloss⟩, List.forall_mem_nil _⟩

/-- What is accepted, exactly: no two numbers are in the wrong order, the ceiling of the targets is a number,
and the heater's window and the rate of the link are not zero. So a sound configuration is one that is
accepted and has no NaN in it. -/
theorem accepted_iff_unbroken (c : Configuration) :
    (c.fault? = none ↔ (∀ r ∈ c.rules, r.Unbroken) ∧ c.maxTarget.isNaN = false ∧ 0 < c.heaterPeriod ∧
        0 < c.linkBaud) ∧
      (c.Sound ↔ c.fault? = none ∧ ∀ x ∈ c.numbers, x.isNaN = false) := by
  refine ⟨c.fault?_eq_none_iff, fun h => ⟨?_, h.isNaN⟩, ?_⟩
  · have htarget : c.maxTarget.isNaN = false := h.isNaN _ (by simp [numbers])
    exact c.fault?_eq_none_iff.mpr
      ⟨fun r hr => Or.inl (h.ordered r hr), htarget, h.heaterPeriod, h.linkBaud⟩
  · rintro ⟨haccepted, hnumbers⟩
    obtain ⟨hrules, -, hperiod, hbaud⟩ := c.fault?_eq_none_iff.mp haccepted
    refine ⟨fun r hr => ?_, hperiod, hbaud⟩
    obtain ⟨hlow, hhigh⟩ := isNaN_of_mem_rules hnumbers r hr
    exact (hrules r hr).holds hlow hhigh

/-- A NaN in the place of any number but the ceiling is accepted, and none of these configurations is sound. -/
theorem accepted_with_nan :
    let nan : Float32 := Float32.ofBits 0x7fc00000
    let c := Configuration.standard
    ∀ c' ∈ [{ c with proportionalGain := nan }, { c with integralGain := nan },
        { c with derivativeGain := nan }, { c with minSetpoint := nan }, { c with maxSetpoint := nan },
        { c with vesselVolume := nan }, { c with heatLoss := nan }],
      c'.fault? = none ∧ ¬c'.Sound := by
  intro nan c c' hc'
  have hrefused : c'.fault? = none ∧ ∃ x ∈ c'.numbers, x.isNaN = true := by
    revert c'
    decide +kernel
  obtain ⟨haccepted, x, hx, hnan⟩ := hrefused
  refine ⟨haccepted, fun hsound => ?_⟩
  rw [hsound.isNaN x hx] at hnan
  cases hnan

end Configuration

end Brewhouse
