import Brewhouse.Control
import Brewhouse.Proofs.Exact.Single

/-!
When the regulator asks for heat. An output that is zero or NaN gives a window without heating, so
the heater is on only after a reading that is a number and lies below the setpoint, whatever the
regulator remembers.
-/

namespace Brewhouse.Control

open Exact

/-- An output that is zero or no number asks for no heat. -/
theorem HeaterDuty.on_of_negligible {output : Float32} (h : Single.Negligible output)
    (limit : Float32) (period : Milliseconds) : (ofOutput output limit period).on = 0 := by
  unfold ofOutput
  split
  · rfl
  · have hquotient := h.div limit
    have hraised : Single.Negligible (if output / limit < 0 then 0 else output / limit) := by
      split
      · exact Single.negligible_zero
      · exact hquotient
    simp only [hraised.not_one_lt, if_false]
    exact Single.nearestWord_of_negligible (hraised.mul _)

namespace Regulator

/-- After a reading that is no number there is no output that is one. -/
theorem isNaN_output {r r' : Regulator} {measured : Celsius} {elapsed : Milliseconds}
    {output : Float32} (hmeasured : measured.isNaN = true)
    (h : r.next? measured elapsed = some (r', output)) (hbelow : ¬r.setpoint ≤ measured) :
    output.isNaN = true := by
  simp only [next?, hbelow, if_false, Option.bind_eq_bind, Option.bind_eq_some_iff,
    Option.pure_def, Option.some.injEq, Prod.mk.injEq] at h
  obtain ⟨integral, -, output', hclamp, -, rfl⟩ := h
  have herror := Single.isNaN_sub_of_right r.setpoint hmeasured
  exact Single.clamp?_of_isNaN (Single.isNaN_add_of_left _
    (Single.isNaN_add_of_left _ (Single.isNaN_mul_of_right _ herror))) hclamp

/-- At or above the setpoint the output is zero. -/
theorem output_eq_zero {r r' : Regulator} {measured : Celsius} {elapsed : Milliseconds}
    {output : Float32} (habove : r.setpoint ≤ measured)
    (h : r.next? measured elapsed = some (r', output)) : output = 0 := by
  simp only [next?, habove, if_true, Option.bind_eq_bind, Option.bind_eq_some_iff,
    Option.pure_def, Option.some.injEq, Prod.mk.injEq] at h
  obtain ⟨integral, -, -, rfl⟩ := h
  rfl

/-- Heat is asked for only below the setpoint. -/
theorem measured_lt_of_on_pos {r r' : Regulator} {measured : Celsius} {elapsed : Milliseconds}
    {output limit : Float32} {period : Milliseconds} (hsetpoint : r.setpoint.isNaN = false)
    (h : r.next? measured elapsed = some (r', output))
    (hon : 0 < (HeaterDuty.ofOutput output limit period).on) : measured < r.setpoint := by
  have hheat : ¬Single.Negligible output := fun hnegligible => by
    rw [HeaterDuty.on_of_negligible hnegligible] at hon
    exact absurd hon (by decide)
  have hbelow : ¬r.setpoint ≤ measured := fun habove => by
    rw [output_eq_zero habove h] at hheat
    exact hheat Single.negligible_zero
  have hmeasured : measured.isNaN = false := by
    by_contra hnan
    have houtput := isNaN_output (by simpa using hnan) h hbelow
    exact hheat (Or.inl ((Single.isNaN_iff_parts output).mp houtput))
  exact Single.lt_of_not_le hmeasured hsetpoint hbelow

end Regulator

end Brewhouse.Control
