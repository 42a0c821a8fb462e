import Brewhouse.Bench.Pins
import Brewhouse.Proofs.Board.Relays
import Brewhouse.Proofs.Control.Heating
import Brewhouse.Proofs.Exact.Pattern

/-!
The heater's window. The part of it in which the heater is on is worked out in single precision, which does
not hold every number of milliseconds. It holds those up to 2 ^ 24, and up to there a duty fills its window
exactly; a longer window may be rounded up, and then full power takes longer than the window.
-/

namespace Brewhouse

open Exact

/-! ### Duties -/

namespace Control.HeaterDuty

/-- A part of the window is at most the window, both as single precision has them. -/
theorem part_le {fraction : Float32} (h : Single.Within 0 1 fraction) (period : Milliseconds) :
    Single.nearestWord (fraction * period.toFloat32) ≤ Single.nearestWord period.toFloat32 := by
  obtain ⟨hnonneg, hfinite⟩ := Single.toFloat32_word period
  rcases h with hnan | ⟨hlow, hhigh⟩
  · have hnegligible : Single.Negligible fraction := .inl ((Single.isNaN_iff_parts _).mp hnan)
    rw [Single.nearestWord_of_negligible (hnegligible.mul period.toFloat32)]
    exact UInt32.zero_le
  · obtain ⟨hproduct, hle⟩ := Single.mul_le_of_le_one hlow hhigh hnonneg hfinite
    exact Single.nearestWord_mono hproduct hfinite hle

/-- The heater is on for at most the window as single precision has it. -/
theorem on_le (output limit : Float32) (period : Milliseconds) :
    (ofOutput output limit period).on ≤ Single.nearestWord period.toFloat32 := by
  unfold ofOutput
  split
  · exact UInt32.zero_le
  · obtain ⟨fraction, hclamp, hfraction⟩ :=
      Single.exists_clamp (by decide +kernel : (0 : Float32) ≤ 1) (output / limit)
    obtain rfl := Option.some.inj hclamp
    exact part_le hfraction period

/-- At full power the heater is on for all of the window as single precision has it. -/
theorem on_of_full (period : Milliseconds) :
    (ofOutput 1 1 period).on = Single.nearestWord period.toFloat32 := by
  have hfinite := (Single.toFloat32_word period).2
  have hfull : (ofOutput 1 1 period).on = Single.nearestWord (1 * period.toFloat32) := rfl
  obtain ⟨hproduct, hvalue⟩ := Single.value_one_mul hfinite
  rw [hfull, ← UInt32.toNat_inj, Single.toNat_nearestWord hproduct, Single.toNat_nearestWord hfinite,
    hvalue]

theorem period_ofOutput (output limit : Float32) (period : Milliseconds) :
    (ofOutput output limit period).period = period := by
  unfold ofOutput
  split <;> rfl

/-- On and off make up the window, or what the heater is on for if that is longer. -/
theorem on_add_off (d : HeaterDuty) : d.on.toNat + d.off.toNat = max d.on.toNat d.period.toNat := by
  rw [off]
  by_cases hlt : d.on < d.period
  · rw [if_pos hlt, UInt32.toNat_sub_of_le _ _ (UInt32.le_of_lt hlt)]
    rw [UInt32.lt_iff_toNat_lt] at hlt
    omega
  · rw [if_neg hlt, UInt32.toNat_zero]
    rw [UInt32.lt_iff_toNat_lt] at hlt
    omega

end Control.HeaterDuty

/-! ### Time -/

/-- A board with a clock that shows how long its delays have taken. -/
structure Clocked (β : Type) where
  board : β
  time : Nat

namespace Clocked

variable {β : Type} [Board β]

instance : Board (Clocked β) where
  write pin high b := ((Board.write pin high b.board).1, { b with board := (Board.write pin high b.board).2 })
  read pin b := ((Board.read pin b.board).1, { b with board := (Board.read pin b.board).2 })
  delay what time b := ⟨Board.delay what time b.board, b.time + time.toNat⟩

theorem time_setLoad (s : Station (Clocked β)) (load : Load) (on : Bool) :
    (s.setLoad load on).value.board.time = s.board.time := by
  have hset (r : Relay) : (r.set on s.board).value.2.time = s.board.time := by
    rw [(r.value_set on s.board).2]
    rfl
  cases load with
  | heater => exact hset s.heater
  | pump => exact hset s.pump

theorem time_switch (s : Station (Clocked β)) (on : Bool) (time : Milliseconds) :
    ((s.setLoad .heater on).value.waitInWindow time).board.time = s.board.time + time.toNat :=
  congrArg (fun start => start + time.toNat) (time_setLoad s .heater on)

/-- Driving the heater takes the time that it is on and the time that it is off. -/
theorem time_setHeater (s : Station (Clocked β)) (d : Control.HeaterDuty) :
    (s.setHeater d).value.board.time = s.board.time + (d.on.toNat + d.off.toNat) := by
  have hnone {time : Milliseconds} (h : ¬0 < time) : time.toNat = 0 := by
    rw [UInt32.lt_iff_toNat_lt] at h
    exact Nat.eq_zero_of_not_pos h
  have hheated := time_switch s true d.on
  rw [Station.setHeater]
  by_cases hon : 0 < d.on <;> by_cases hoff : 0 < d.off ∨ d.isOff = true <;>
    simp only [hon, hoff, if_true, if_false]
  · have hrest := time_switch ((s.setLoad .heater true).value.waitInWindow d.on) false d.off
    rw [hheated, Nat.add_assoc] at hrest
    exact hrest
  · rw [hnone (not_or.mp hoff).1]
    exact hheated
  · rw [hnone hon, Nat.zero_add]
    exact time_switch s false d.off
  · rw [hnone hon, hnone (not_or.mp hoff).1]
    rfl

end Clocked

/-! ### Filling the window -/

namespace Control.HeaterDuty

/-- What a window is to be: the heater is on for no longer than the window, on and off make it up, and
driving the heater takes just as long. -/
structure FillsWindow (d : HeaterDuty) : Prop where
  on_le : d.on ≤ d.period
  on_add_off : d.on.toNat + d.off.toNat = d.period.toNat
  takes {β : Type} [Board β] (s : Station (Clocked β)) :
    (s.setHeater d).value.board.time = s.board.time + d.period.toNat

theorem fillsWindow_of_on_le {d : HeaterDuty} (h : d.on ≤ d.period) : d.FillsWindow := by
  have hsum : d.on.toNat + d.off.toNat = d.period.toNat := by
    rw [d.on_add_off]
    exact max_eq_right (UInt32.le_iff_toNat_le.mp h)
  exact ⟨h, hsum, fun s => by rw [Clocked.time_setHeater, hsum]⟩

/-- The duties fill a window if single precision does not round it up. Where it does, full power takes
longer than the window; the excess is at most 128 ms, and no window up to 2 ^ 24 ms has any. -/
theorem fillsWindow_iff (period : Milliseconds) :
    ((∀ output limit, (ofOutput output limit period).FillsWindow) ↔
        Single.nearestWord period.toFloat32 ≤ period) ∧
      (period ≤ 16777216 → ∀ output limit, (ofOutput output limit period).FillsWindow) ∧
      ∀ output limit, (ofOutput output limit period).on.toNat ≤ period.toNat + 128 := by
  have hfits (h : Single.nearestWord period.toFloat32 ≤ period) (output limit : Float32) :
      (ofOutput output limit period).FillsWindow := by
    apply fillsWindow_of_on_le
    rw [period_ofOutput]
    exact UInt32.le_trans (on_le output limit period) h
  refine ⟨⟨fun h => ?_, hfits⟩, fun hperiod => ?_, fun output limit => ?_⟩
  · have hfull := (h 1 1).on_le
    rwa [on_of_full, period_ofOutput] at hfull
  · apply hfits
    rw [Single.nearestWord_toFloat32 hperiod]
    exact UInt32.le_refl period
  · calc (ofOutput output limit period).on.toNat ≤ (Single.nearestWord period.toFloat32).toNat :=
          UInt32.le_iff_toNat_le.mp (on_le output limit period)
      _ ≤ period.toNat + 128 := Single.nearestWord_toFloat32_le period

theorem fillsWindow_of_two_seconds : (2000 : Milliseconds) ≤ 16777216 ∧
    ∀ output limit, (ofOutput output limit 2000).FillsWindow :=
  ⟨by decide, (fillsWindow_iff 2000).2.1 (by decide)⟩

/-- Full power in a window of 16777219 ms: single precision has the window as 16777220 ms, and the heater
is on for as long. -/
theorem full_power_outlasts_window :
    ofOutput 1000 1000 16777219 = ⟨16777220, 16777219⟩ ∧ ¬(ofOutput 1000 1000 16777219).FillsWindow ∧
      (((Station.install (⟨Bench.Pins.idle, 0⟩ : Clocked Bench.Pins)).value.setHeater
        (ofOutput 1000 1000 16777219)).value.board.time = 16777220) := by
  have hduty : ofOutput 1000 1000 16777219 = ⟨16777220, 16777219⟩ := by decide +kernel
  refine ⟨hduty, fun h => ?_, ?_⟩
  · have hle := h.on_le
    rw [hduty] at hle
    exact absurd hle (by decide)
  · rw [Clocked.time_setHeater, hduty]
    rfl

end Control.HeaterDuty

end Brewhouse
