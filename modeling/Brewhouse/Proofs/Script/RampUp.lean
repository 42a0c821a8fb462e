import Brewhouse.Proofs.Exact.Arithmetic
import Brewhouse.Proofs.Script.Refreshes
import Brewhouse.Proofs.Script.Timing

/-!
When ramp-up is over. The ramp-up target moves with the hot liquor tank: it is above the setpoint as long as
the tank is below it, and no longer once the tank is there. Rounding, underflow and infinities do not change
that, so the tank reaches the raised target exactly when it reaches the plain one.
-/

namespace Brewhouse

open Exact Exact.Single

/-- What the arithmetic of targets relies on. -/
structure ThermalModel.Sound (m : ThermalModel) : Prop where
  isFinite : m.vesselVolume.isFinite = true
  one_le : 1 ≤ m.vesselVolume
  isNaN : m.maxTarget.isNaN = false

namespace ThermalModel

variable {m : ThermalModel}

/-- The part of the vessel that some water takes up is a number above zero. -/
theorem Sound.dilution (h : m.Sound) {volume : Millilitres} (hvolume : 0 < volume) :
    (parts (m.dilution volume)).isFinite = true ∧ 0 < value (m.dilution volume) := by
  have hvessel : 1 ≤ value m.vesselVolume := by
    rw [← value_one, ← le_iff_value rfl (isNaN_of_isFinite h.isFinite)]
    exact h.one_le
  have htop := (abs_lt.mp (abs_value_lt h.isFinite)).2
  have hlow := one_le_value_word hvolume
  have hhigh := value_word_le volume
  have hquotient := rounds_div (toFloat32_word volume).2 h.isFinite (by linarith)
  have hmost : value volume.toFloat32 / value m.vesselVolume ≤ twoPow 32 :=
    (div_le_self (by linarith) hvessel).trans hhigh
  have hleast : twoPow (-128) ≤ value volume.toFloat32 / value m.vesselVolume := by
    rw [le_div_iff₀ (by linarith)]
    calc twoPow (-128) * value m.vesselVolume ≤ twoPow (-128) * twoPow 128 :=
          mul_le_mul_of_nonneg_left htop.le (twoPow_pos _).le
      _ = 1 := (twoPow_add (-128) 128).symm
      _ ≤ _ := hlow
  have hbelow := closest_mono hmost
  have habove := closest_mono hleast
  rw [closest_twoPow (by decide) (by decide), ← hquotient.value] at hbelow habove
  have hpos : 0 < value (m.dilution volume) := (twoPow_pos _).trans_le habove
  refine ⟨isFinite_of_abs_value_lt hquotient.isNaN ?_, hpos⟩
  rw [abs_of_pos hpos]
  exact hbelow.trans_lt (twoPow_lt_iff.mpr (by decide))

/-- The tank reaches the raised target exactly when it reaches the plain one. -/
theorem Sound.rampUpTarget_le_iff (h : m.Sound) {volume : Millilitres} (hvolume : 0 < volume)
    {setpoint hlt : Celsius} (hsetpoint : setpoint.isFinite = true) (hhlt : hlt.isFinite = true) :
    m.rampUpTarget setpoint volume hlt ≤ hlt ↔ m.cap setpoint ≤ hlt := by
  obtain ⟨hdilution, hpos⟩ := h.dilution hvolume
  have hs := isNaN_of_isFinite hsetpoint
  have hx := isNaN_of_isFinite hhlt
  have hgap := rounds_sub hsetpoint hhlt
  obtain ⟨hraise, hup, hdown⟩ := mul_side hdilution hpos hgap.isNaN
  obtain ⟨htarget, habove, hbelow⟩ := add_side hsetpoint hraise
  rw [rampUpTarget, cap, cap, least_le_iff htarget h.isNaN, least_le_iff hs h.isNaN]
  refine or_congr_left ?_
  have hdifference : value (setpoint - hlt) = closest (value setpoint - value hlt) := hgap.value
  by_cases hreached : setpoint ≤ hlt
  · have hle := (le_iff_value hs hx).mp hreached
    have hlowered : value (setpoint - hlt) ≤ 0 := by
      rw [hdifference]
      exact closest_nonpos (by linarith)
    exact iff_of_true (Exact.Single.le_trans (hbelow (hdown hlowered)) hreached) hreached
  · have hle := (le_iff_value hx hs).mp (Exact.Single.le_of_lt (lt_of_not_le hx hs hreached))
    have hraised : 0 ≤ value (setpoint - hlt) := by
      rw [hdifference]
      exact closest_nonneg (by linarith)
    exact iff_of_false (fun h => hreached (Exact.Single.le_trans (habove (hup hraised)) h)) hreached

end ThermalModel

namespace Script

theorem rampedUp_coast {s : Script} (h : s.rampedUp = true) (x : Sample) :
    (s.coast x).script.rampedUp = true := by
  have hsettle : s.settle.rampedUp = true := by
    rw [settle, passAll_eq]
    exact h
  unfold coast
  split
  · exact hsettle
  · exact hsettle
  · rw [retarget, hsettle, Bool.true_or]

theorem cursor_lt_step_of_heat {s : Script} {x : Sample} {payload : Option Celsius}
    (hactive : s.settle.active? = some (.heat payload)) :
    s.settle.cursor < (s.step x).script.cursor ↔
      s.settle.letsPass x (.heat payload) = true := by
  cases hpass : s.settle.letsPass x (.heat payload) with
  | false =>
      rw [step_kept hactive rfl hpass, tried_cursor]
      simp
  | true =>
      have hlt : s.settle.cursor < s.settle.statements.length :=
        (List.getElem?_eq_some_iff.mp hactive).1
      rw [step_passed hactive rfl hpass]
      refine iff_of_true (lt_of_lt_of_le ?_ (cursor_le_coast x ?_)) rfl
      · rw [leave_cursor, tried_cursor]
        exact Nat.lt_succ_self _
      · rw [leave_cursor, tried_cursor, leave_statements, tried_statements]
        exact hlt

/-- In mashing mode with water and before ramp-up is over, a step passes a heating statement it comes to, and
takes ramp-up to be over, exactly when the tank reaches the setpoint or the ceiling. -/
theorem heat_passes_iff {s : Script} {x : Sample} {payload : Option Celsius}
    (hactive : s.settle.active? = some (.heat payload)) (hphase : s.settle.phase = .mashing)
    (hwater : 0 < s.settle.mashWater) (hramp : s.rampedUp = false) (hmodel : s.model.Sound)
    (hsetpoint : (Statement.heat payload).setpoint.isFinite = true) (hhlt : x.hlt.isFinite = true) :
    (s.settle.cursor < (s.step x).script.cursor ↔
      s.model.cap (Statement.heat payload).setpoint ≤ x.hlt) ∧
    ((s.step x).script.rampedUp = true ↔ s.model.cap (Statement.heat payload).setpoint ≤ x.hlt) := by
  have hmodel' : s.settle.model = s.model := by rw [settle, passAll_eq]
  have hramp' : s.settle.rampedUp = false := by rwa [settle, passAll_eq]
  have hcompensates : s.settle.compensates = true := by
    rw [compensates, hphase, decide_eq_true hwater]
    rfl
  have haim : s.settle.aim (Statement.heat payload).setpoint x =
      s.model.rampUpTarget (Statement.heat payload).setpoint s.settle.mashWater x.hlt := by
    rw [aim, hcompensates, hramp', hmodel']
    rfl
  have hreached := hmodel.rampUpTarget_le_iff hwater hsetpoint hhlt
  have htried : (s.settle.tried x (.heat payload)).rampedUp = true ↔
      s.model.cap (Statement.heat payload).setpoint ≤ x.hlt := by
    change (s.settle.rampedUp || s.settle.rampsUp (Statement.heat payload).setpoint x) = true ↔ _
    rw [rampsUp, hcompensates, hramp', haim, ← hreached]
    simp
  have hpasses : s.settle.letsPass x (.heat payload) = true ↔
      s.model.cap (Statement.heat payload).setpoint ≤ x.hlt := by
    have hnumber : (s.model.rampUpTarget (Statement.heat payload).setpoint s.settle.mashWater
        x.hlt).isNaN = false := (least_le _ hmodel.isNaN).1
    change (!decide (x.hlt < s.settle.aim (Statement.heat payload).setpoint x)) = true ↔ _
    rw [← hreached, haim, Bool.not_eq_true', decide_eq_false_iff_not]
    exact ⟨Exact.Single.le_of_not_lt hnumber (isNaN_of_isFinite hhlt),
      fun hle hlt => Exact.Single.not_le_of_lt hlt hle⟩
  refine ⟨(cursor_lt_step_of_heat hactive).trans hpasses, ?_⟩
  cases hpass : s.settle.letsPass x (.heat payload) with
  | false => rw [step_kept hactive rfl hpass, htried]
  | true =>
      have hreaches := hpasses.mp hpass
      have hleft : ((s.settle.tried x (.heat payload)).leave (.heat payload)).rampedUp = true :=
        htried.mpr hreaches
      rw [step_passed hactive rfl hpass]
      exact iff_of_true (rampedUp_coast hleft x) hreaches

/-- With a model that is sound, the hot liquor tank is at the ramp-up target or above it exactly when it is
at the plain target or above it. So while mashing with water and before ramp-up is over, a step passes a
heating statement that it tries, and takes ramp-up to be over, exactly when the tank reaches the setpoint or
the ceiling. -/
theorem rampUp_ends_at_plain_target {m : ThermalModel} (hmodel : m.Sound) :
    (∀ (volume : Millilitres) (setpoint hlt : Celsius), 0 < volume → setpoint.isFinite = true →
      hlt.isFinite = true → (m.rampUpTarget setpoint volume hlt ≤ hlt ↔ m.cap setpoint ≤ hlt)) ∧
    ∀ (s : Script) (x : Sample) (payload : Option Celsius), s.model = m →
      s.settle.active? = some (.heat payload) → s.settle.phase = .mashing →
      0 < s.settle.mashWater → s.rampedUp = false →
      (Statement.heat payload).setpoint.isFinite = true → x.hlt.isFinite = true →
      (s.settle.cursor < (s.step x).script.cursor ↔
        m.cap (Statement.heat payload).setpoint ≤ x.hlt) ∧
      ((s.step x).script.rampedUp = true ↔ m.cap (Statement.heat payload).setpoint ≤ x.hlt) := by
  refine ⟨fun _ _ _ hvolume => hmodel.rampUpTarget_le_iff hvolume, ?_⟩
  rintro s x payload rfl hactive hphase hwater hramp hsetpoint hhlt
  exact heat_passes_iff hactive hphase hwater hramp hmodel hsetpoint hhlt

/-- A tank of 66 degrees ends ramp-up to 66 degrees, though the ramp-up target was 79 degrees when it was
cold. -/
theorem rampUp_ends_at_plain_target_of_mash :
    let s := ofStatements .standard [.mash, .mashWater (some 15000), .heat (some 66)]
    (s.step ⟨1000, 20, 20⟩).script.target = some 79 ∧
      ¬(s.step ⟨1000, 20, 20⟩).script.rampedUp = true ∧
      (s.step ⟨1000, 66, 20⟩).script.rampedUp = true ∧ 2 < (s.step ⟨1000, 66, 20⟩).script.cursor := by
  intro s
  have hmodel : ThermalModel.standard.Sound :=
    ⟨by decide +kernel, by decide +kernel, by decide +kernel⟩
  have hactive : s.settle.active? = some (.heat (some 66)) := by decide +kernel
  have hends := fun (x : Sample) (hhlt : x.hlt.isFinite = true) =>
    (rampUp_ends_at_plain_target hmodel).2 s x (some 66) rfl hactive (by decide +kernel)
      (by decide +kernel) rfl (by decide +kernel) hhlt
  have hcold := hends ⟨1000, 20, 20⟩ (by decide +kernel)
  have hwarm := hends ⟨1000, 66, 20⟩ (by decide +kernel)
  have hcursor : s.settle.cursor = 2 := by decide +kernel
  refine ⟨by decide +kernel, ?_, hwarm.2.mpr (by decide +kernel), ?_⟩
  · rw [hcold.2]
    decide +kernel
  · rw [← hcursor, hwarm.1]
    decide +kernel

end Script

end Brewhouse
