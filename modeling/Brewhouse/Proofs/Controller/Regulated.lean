import Brewhouse.Proofs.Controller.Trace

/-!
Regulation in every run. A regulator with a finite limit that is not below zero never fails, whatever it is
fed: it stores no more than full power needs and asks for no more than full power. The limit of every
configuration is such a one, accepted or not, so no tick is left without a result.
-/

namespace Brewhouse.Controller

open Control Exact

/-- A tick never ends without a result of the regulator. -/
theorem IsTuned.verdict_ne_unregulated {c : Controller} (h : c.IsTuned) (elapsed : Milliseconds)
    (r : Readings) : (c.tick elapsed r).verdict ≠ .unregulated := by
  intro hverdict
  have htraced := h.traced elapsed r
  rw [hverdict] at htraced
  cases htraced with
  | ended _ _ _ _ _ _ hends => cases hends

/-- For all settings with a finite limit that is not below zero, every call of a regulator has a result,
the integral stays in its range, the output is in its own and is zero at or above the setpoint. So every
tick of every run has a result, under any configuration. -/
theorem regulation_in_range :
    (∀ (setpoint : Celsius) (gains : Gains) (limit : Float32), limit.isFinite = true → 0 ≤ limit →
      ∀ calls : List Regulator.Call, ∃ r, (Regulator.fresh setpoint gains limit).run? calls = some r ∧
        Single.Within 0 (if 0 < gains.integral then limit / gains.integral else limit) r.integral ∧
        ∀ measured elapsed, ∃ r' output, r.next? measured elapsed = some (r', output) ∧
          Single.Within 0 limit output ∧ (setpoint ≤ measured → output = 0)) ∧
    ∀ configuration : Configuration,
      (configuration.outputLimit.isFinite = true ∧ 0 ≤ configuration.outputLimit) ∧
      ∀ calls elapsed r,
        (((fresh configuration).run calls).tick elapsed r).verdict ≠ .unregulated := by
  constructor
  · intro setpoint gains limit hfinite hnonneg calls
    have hlimited : (Regulator.fresh setpoint gains limit).Limited := ⟨hfinite, hnonneg⟩
    obtain ⟨r, hrun, hsame, hstored⟩ := hlimited.run (hlimited.stored rfl) calls
    refine ⟨r, hrun, ?_, fun measured elapsed => ?_⟩
    · rw [Regulator.Stored, Regulator.integralLimit, hsame.1, hsame.2.2] at hstored
      exact hstored
    · obtain ⟨r', output, hnext, -, -, hdriven, hzero⟩ :=
        (hlimited.of_same hsame).next? measured elapsed
      rw [hsame.2.2] at hdriven
      rw [hsame.2.1] at hzero
      exact ⟨r', output, hnext, hdriven, hzero⟩
  · intro configuration
    have hlimited := (Regulator.tuned_regulator configuration 0).limited
    refine ⟨⟨hlimited.isFinite, hlimited.nonneg⟩, fun calls elapsed r => ?_⟩
    exact ((isTuned_fresh configuration).run calls).verdict_ne_unregulated elapsed r

/-- A gain that is NaN, the longest window of time and a reading of minus infinity: the integral is still in
its range, and a reading at the setpoint gives nothing. -/
theorem regulation_in_range_of_extremes :
    let gains : Gains := ⟨0 / 0, 2, -1⟩
    let calls : List Regulator.Call :=
      [.next 20 1000, .reset, .next (Float32.ofBits 0xff800000) 4294967295]
    ∃ r, (Regulator.fresh 65 gains 1000).run? calls = some r ∧ Single.Within 0 500 r.integral ∧
      ∃ r' output, r.next? 65 1000 = some (r', output) ∧ output = 0 := by
  intro gains calls
  obtain ⟨r, hrun, hstored, hnext⟩ :=
    regulation_in_range.1 65 gains 1000 (by decide +kernel) (by decide +kernel) calls
  obtain ⟨r', output, houtput, -, hzero⟩ := hnext 65 1000
  have hmost : (if 0 < gains.integral then 1000 / gains.integral else (1000 : Float32)) = 500 := by
    decide +kernel
  rw [hmost] at hstored
  exact ⟨r, hrun, hstored, r', output, houtput, hzero (by decide +kernel)⟩

end Brewhouse.Controller
