import Brewhouse.Proofs.Configuration
import Brewhouse.Proofs.Control.Heating
import Brewhouse.Proofs.Controller.Run

/-!
The heater and the ceiling. In every run the heater is on only in a tick whose reading lies below
the target, and no target lies above the ceiling of the script's model. A configuration that is
accepted has its ceiling below boiling, so then no boiling tank is heated.
-/

namespace Brewhouse

/-- A ceiling that is a number cuts every target at it. -/
theorem ThermalModel.cap_le (m : ThermalModel) (hm : m.maxTarget.isNaN = false)
    (target : Celsius) : (m.cap target).isNaN = false ∧ m.cap target ≤ m.maxTarget :=
  Exact.Single.least_le target hm

/-- The ceiling of an accepted configuration is a number below boiling. -/
theorem Configuration.maxTarget_lt {c : Configuration} (h : c.fault? = none) :
    c.maxTarget < 100 := by
  obtain ⟨-, -, -, -, -, -, -, hboiling, -⟩ := c.fault?_eq_none.mp h
  exact hboiling

namespace Controller

theorem regulatorFor_setpoint (c : Controller) (target : Celsius) :
    (c.regulatorFor target).setpoint = target := by
  unfold regulatorFor
  split
  · next hbits => exact Float32.toBits_inj.mp hbits
  · rfl

/-- Heat is asked for only below the script's target. -/
theorem hlt_lt_target {c : Controller} {x : Sample} {regulator : Control.Regulator}
    {duty : Control.HeaterDuty} {target : Celsius} (htarget : c.script.target = some target)
    (hnumber : target.isNaN = false) (h : c.regulate? x = some (regulator, duty))
    (hon : 0 < duty.on) : x.hlt < target := by
  simp only [regulate?, htarget, Option.bind_eq_bind, Option.bind_eq_some_iff, Option.pure_def,
    Option.some.injEq, Prod.mk.injEq] at h
  obtain ⟨⟨regulator', output⟩, hnext, -, rfl⟩ := h
  have hsetpoint := c.regulatorFor_setpoint target
  rw [← hsetpoint] at hnumber ⊢
  exact Control.Regulator.measured_lt_of_on_pos hnumber hnext hon

/-- A tick heats only below its target, and its target is at most the ceiling. -/
theorem heated_tick {c : Controller} {elapsed : Milliseconds} {r : Readings}
    {duty : Control.HeaterDuty} (hceiling : c.script.model.maxTarget.isNaN = false)
    (h : .setHeater duty ∈ (c.tick elapsed r).actions) (hon : 0 < duty.on) :
    ∃ hlt target report, r.hlt = .ok hlt ∧
      (c.tick elapsed r).actions.filterMap Action.report? = [report] ∧
      report.target = some target ∧ hlt < target ∧ target ≤ c.script.model.maxTarget := by
  obtain ⟨x, regulator, report, -, hhlt, hfault, hgoes, hregulate, hreport, htarget⟩ :=
    setHeater_mem_tick h
  obtain ⟨target, hcap⟩ := Script.step_target hfault hgoes
  obtain ⟨hnumber, hle⟩ := c.script.model.cap_le hceiling target
  exact ⟨x.hlt, _, report, hhlt, hreport, htarget.trans hcap,
    hlt_lt_target (c := c.counted.stepped x) hcap hnumber hregulate hon, hle⟩

/-- The heater is on only in a tick that read less than its target, which is at most the ceiling of
the script under way. Under an accepted configuration whose model all scripts have, the heater is
off in every tick that read 100 °C or more. -/
theorem heater_off_at_ceiling (configuration : Configuration) (calls : List Call) :
    ((∀ script ∈ calls.filterMap Call.script?, script.model.maxTarget.isNaN = false) →
      ∀ elapsed r duty,
        .setHeater duty ∈ (((fresh configuration).run calls).tick elapsed r).actions →
        0 < duty.on →
        ∃ hlt target report, r.hlt = .ok hlt ∧
          (((fresh configuration).run calls).tick elapsed r).actions.filterMap Action.report? =
            [report] ∧
          report.target = some target ∧ hlt < target ∧
          target ≤ ((fresh configuration).run calls).script.model.maxTarget) ∧
    (configuration.fault? = none →
      (∀ script ∈ calls.filterMap Call.script?, script.model = configuration.thermalModel) →
      ∀ elapsed r duty hlt,
        .setHeater duty ∈ (((fresh configuration).run calls).tick elapsed r).actions →
        r.hlt = .ok hlt → 100 ≤ hlt → duty.on = 0) := by
  constructor
  · intro hscripts elapsed r duty hduty hon
    obtain ⟨-, -, -, hrun, -⟩ := setHeater_mem_tick hduty
    refine heated_tick ?_ hduty hon
    exact model_run (P := fun m => m.maxTarget.isNaN = false) (fun h => by cases h) hscripts hrun
  · intro hvalid hscripts elapsed r duty hlt hduty hhlt hhot
    obtain ⟨-, -, -, hrun, -⟩ := setHeater_mem_tick hduty
    have hmodel : ((fresh configuration).run calls).script.model = configuration.thermalModel :=
      model_run (P := fun m => m = configuration.thermalModel) (fun h => by cases h) hscripts hrun
    have hboiling : configuration.maxTarget < 100 := Configuration.maxTarget_lt hvalid
    have hceiling : configuration.maxTarget.isNaN = false := by
      by_contra hnan
      exact Exact.Single.not_lt_of_isNaN_left (by simpa using hnan) hboiling
    by_contra hoff
    have hon : 0 < duty.on := UInt32.pos_iff_ne_zero.mpr hoff
    obtain ⟨hlt', target, -, hhlt', -, -, hbelow, hle⟩ :=
      heated_tick (by rw [hmodel]; exact hceiling) hduty hon
    obtain rfl : hlt = hlt' := Except.ok.inj (hhlt.symm.trans hhlt')
    rw [hmodel] at hle
    have hcool : hlt < 100 :=
      Exact.Single.lt_of_lt_of_le (Exact.Single.lt_of_lt_of_le hbelow hle)
        (Exact.Single.le_of_lt hboiling)
    exact Exact.Single.not_le_of_lt hcool hhot

/-- A standard brewery that holds 65 °C is heated at 20 °C, and not at 100 °C. -/
theorem heater_off_at_ceiling_of_hold :
    let script := Script.ofStatements Configuration.standard.thermalModel [.hold (some (65, 60000))]
    let c := (fresh Configuration.standard).run [.obey (.load script)]
    let cold : Readings := ⟨.ok 20, .ok 20, true, true⟩
    let hot : Readings := ⟨.ok 100, .ok 20, true, true⟩
    (∃ hlt target report, cold.hlt = .ok hlt ∧
      (c.tick 1000 cold).actions.filterMap Action.report? = [report] ∧
      report.target = some target ∧ hlt < target ∧ target ≤ c.script.model.maxTarget) ∧
    ∀ duty, .setHeater duty ∈ (c.tick 1000 hot).actions → duty.on = 0 := by
  intro script c cold hot
  have hheated : .setHeater ⟨1000, 1000⟩ ∈ (c.tick 1000 cold).actions := by decide +kernel
  constructor
  · refine (heater_off_at_ceiling Configuration.standard [.obey (.load script)]).1 ?_ 1000 cold
      ⟨1000, 1000⟩ hheated (by decide)
    decide +kernel
  · intro duty hduty
    exact (heater_off_at_ceiling Configuration.standard [.obey (.load script)]).2 (by decide +kernel)
      (by decide +kernel) 1000 hot duty 100 hduty rfl (by decide +kernel)

end Controller

end Brewhouse
