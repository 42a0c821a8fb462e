import Brewhouse.Configuration
import Brewhouse.Proofs.Exact.Arithmetic

/-!
The regulator always has a result. The bounds that it moves its integral and its output into are made of
a finite limit and, where there is one, a gain above zero, so they are in order whatever the gains, the
setpoint and the readings are; and what it remembers of a reading touches neither.
-/

namespace Brewhouse.Control.Regulator

open Exact Exact.Single

/-! ### One reading -/

/-- The output at full power is a finite number and not below zero. -/
structure Limited (r : Regulator) : Prop where
  isFinite : r.limit.isFinite = true
  nonneg : 0 ≤ r.limit

variable {r : Regulator} {c : Configuration}

theorem Limited.integralLimit_nonneg (h : r.Limited) : 0 ≤ r.integralLimit := by
  unfold integralLimit
  split
  · next hgain => exact nonneg_div h.nonneg h.isFinite hgain
  · exact h.nonneg

/-- What the regulator is made with, apart from its memory. -/
def SameSettings (r r' : Regulator) : Prop :=
  r'.gains = r.gains ∧ r'.setpoint = r.setpoint ∧ r'.limit = r.limit

/-- Whatever is read, the regulator has a result. Its settings stay, its integral and its output are in
their ranges, and the output is zero at or above the setpoint. -/
theorem Limited.next? (h : r.Limited) (measured : Celsius) (elapsed : Milliseconds) :
    ∃ r' output, r.next? measured elapsed = some (r', output) ∧ r.SameSettings r' ∧
      Within 0 r.integralLimit r'.integral ∧ Within 0 r.limit output ∧
        (r.setpoint ≤ measured → output = 0) := by
  let error := r.setpoint - measured
  let seconds := elapsed.toFloat32 / 1000
  let slope := if 0 < seconds then (error - r.previousError) / seconds else 0
  obtain ⟨integral, hintegral, hstored⟩ :=
    exists_clamp h.integralLimit_nonneg (r.integral + error * seconds)
  obtain ⟨output, houtput, hdriven⟩ := exists_clamp h.nonneg
    (r.gains.proportional * error + r.gains.integral * integral + r.gains.derivative * slope)
  let after : Regulator := { r with integral := integral, previousError := error }
  have hnext : r.next? measured elapsed =
      some (after, if r.setpoint ≤ measured then 0 else output) := by
    refine (congrArg (Option.bind · _) hintegral).trans ?_
    change (if r.setpoint ≤ measured then some (after, 0) else _) = _
    split
    · rfl
    · exact congrArg (Option.bind · fun output => some (after, output)) houtput
  refine ⟨_, _, hnext, ⟨rfl, rfl, rfl⟩, hstored, ?_, fun habove => if_pos habove⟩
  split
  · exact Or.inr ⟨le_refl rfl, h.nonneg⟩
  · exact hdriven

/-! ### Configurations -/

/-- The regulator has the gains and the limit of a configuration. -/
def Tuned (r : Regulator) (c : Configuration) : Prop :=
  r.gains = c.gains ∧ r.limit = c.outputLimit

theorem tuned_regulator (c : Configuration) (target : Celsius) : (c.regulator target).Tuned c :=
  ⟨rfl, rfl⟩

/-- A heater window is a limit, whatever its length. -/
theorem Tuned.limited (h : r.Tuned c) : r.Limited := by
  obtain ⟨hnonneg, hfinite⟩ := toFloat32_word c.heaterPeriod
  have hlimit : r.limit = c.heaterPeriod.toFloat32 := h.2
  exact ⟨hlimit ▸ hfinite, hlimit ▸ hnonneg⟩

theorem Tuned.next? (h : r.Tuned c) (measured : Celsius) (elapsed : Milliseconds) :
    ∃ r' output, r.next? measured elapsed = some (r', output) ∧ r'.Tuned c ∧
      r'.setpoint = r.setpoint := by
  obtain ⟨r', output, hnext, ⟨hgains, hsetpoint, hlimit⟩, -⟩ := h.limited.next? measured elapsed
  exact ⟨r', output, hnext, ⟨hgains.trans h.1, hlimit.trans h.2⟩, hsetpoint⟩

/-! ### Runs -/

inductive Call where
  | next (measured : Celsius) (elapsed : Milliseconds)
  | reset

def answer? (r : Regulator) : Call → Option Regulator
  | .next measured elapsed => (r.next? measured elapsed).map Prod.fst
  | .reset => some r.reset

def run? (r : Regulator) (calls : List Call) : Option Regulator :=
  calls.foldlM answer? r

def Stored (r : Regulator) : Prop :=
  Within 0 r.integralLimit r.integral

theorem Limited.stored (h : r.Limited) (hempty : r.integral = 0) : r.Stored := by
  refine Or.inr ⟨?_, ?_⟩ <;> rw [hempty]
  · exact le_refl rfl
  · exact h.integralLimit_nonneg

/-- Every call has a result, keeps the settings and leaves the integral in its range. -/
theorem Limited.answer (h : r.Limited) (call : Call) :
    ∃ r', r.answer? call = some r' ∧ r.SameSettings r' ∧ r'.Stored := by
  cases call with
  | next measured elapsed =>
      obtain ⟨r', output, hnext, hsame, hstored, -⟩ := h.next? measured elapsed
      have hlimit : r'.integralLimit = r.integralLimit := by
        rw [integralLimit, integralLimit, hsame.1, hsame.2.2]
      refine ⟨r', ?_, hsame, ?_⟩
      · rw [answer?, hnext]
        rfl
      · rw [Stored, hlimit]
        exact hstored
  | reset =>
      have hreset : r.reset.Limited := ⟨h.isFinite, h.nonneg⟩
      exact ⟨_, rfl, ⟨rfl, rfl, rfl⟩, hreset.stored rfl⟩

theorem Limited.of_same {r' : Regulator} (h : r.Limited) (hsame : r.SameSettings r') : r'.Limited := by
  obtain ⟨-, -, hlimit⟩ := hsame
  exact ⟨hlimit ▸ h.isFinite, hlimit ▸ h.nonneg⟩

theorem Limited.run (h : r.Limited) (hstored : r.Stored) (calls : List Call) :
    ∃ r', r.run? calls = some r' ∧ r.SameSettings r' ∧ r'.Stored := by
  induction calls generalizing r with
  | nil => exact ⟨r, rfl, ⟨rfl, rfl, rfl⟩, hstored⟩
  | cons call rest ih =>
      obtain ⟨next, hanswer, hsame, hkept⟩ := h.answer call
      obtain ⟨last, hrest, hsame', hlast⟩ := ih (h.of_same hsame) hkept
      refine ⟨last, ?_, ⟨hsame'.1.trans hsame.1, hsame'.2.1.trans hsame.2.1,
        hsame'.2.2.trans hsame.2.2⟩, hlast⟩
      rw [run?, List.foldlM_cons, hanswer]
      exact hrest

end Brewhouse.Control.Regulator
