import Brewhouse.Equipment
import Brewhouse.Exact.Binary

/-!
The control of heater and pump: a PID regulator, the duty that its output stands for, and the governor of the
pump.
-/

namespace Brewhouse.Control

/-! ### The regulator

It can only heat: its output is never negative, and its integral is kept between zero and what full power
needs, so that a cold start cannot wind it up. -/

structure Gains where
  proportional : Float32
  integral : Float32
  derivative : Float32
  deriving DecidableEq

structure Regulator where
  gains : Gains
  setpoint : Celsius
  /-- The output at full power. -/
  limit : Float32
  integral : Float32
  previousError : Float32
  deriving DecidableEq

namespace Regulator

def fresh (setpoint : Celsius) (gains : Gains) (limit : Float32) : Regulator :=
  ⟨gains, setpoint, limit, 0, 0⟩

def reset (r : Regulator) : Regulator :=
  { r with integral := 0, previousError := 0 }

/-- The largest integral, at which the integral term alone asks for full power. -/
def integralLimit (r : Regulator) : Float32 :=
  if 0 < r.gains.integral then r.limit / r.gains.integral else r.limit

/-- Takes a reading in: the regulator after it and its output. At or above the setpoint the output
is zero, whatever the integral and the derivative say. There is no result when the bounds of the
integral or of the output are not in order. -/
def next? (r : Regulator) (measured : Celsius) (elapsed : Milliseconds) :
    Option (Regulator × Float32) := do
  let error := r.setpoint - measured
  let seconds := elapsed.toFloat32 / 1000
  let slope := if 0 < seconds then (error - r.previousError) / seconds else 0
  let integral ← Exact.Single.clamp? 0 r.integralLimit (r.integral + error * seconds)
  let r := { r with integral := integral, previousError := error }
  if r.setpoint ≤ measured then pure (r, 0)
  else
    let demand :=
      r.gains.proportional * error + r.gains.integral * integral + r.gains.derivative * slope
    let output ← Exact.Single.clamp? 0 r.limit demand
    pure (r, output)

end Regulator

/-! ### The duty

The heater is behind a relay and is driven by time proportioning: in a window of fixed length it is on for a
part and off for the rest. -/

structure HeaterDuty where
  on : Milliseconds
  period : Milliseconds
  deriving DecidableEq, Repr

namespace HeaterDuty

def idle (period : Milliseconds) : HeaterDuty :=
  ⟨0, period⟩

/-- The part of the window that an output asks for: nothing without a positive limit or for an
output that is not finite. -/
def ofOutput (output limit : Float32) (period : Milliseconds) : HeaterDuty :=
  if limit ≤ 0 || !output.isFinite then idle period
  else
    let quotient := output / limit
    let raised := if quotient < 0 then 0 else quotient
    let fraction := if 1 < raised then 1 else raised
    ⟨Exact.Single.nearestWord (fraction * period.toFloat32), period⟩

def off (d : HeaterDuty) : Milliseconds :=
  if d.on < d.period then d.period - d.on else 0

def fraction (d : HeaterDuty) : Float32 :=
  if d.period = 0 then 0 else d.on.toFloat32 / d.period.toFloat32

def isOff (d : HeaterDuty) : Bool :=
  d.on == 0

end HeaterDuty

/-! ### The pump governor

The float switch bounces as the surface moves, so the pump starts as soon as the switch reads low, and stops
only after it has read full for a time without a break. -/

structure PumpGovernor where
  /-- How long the switch has to read full before the pump stops. -/
  timeout : Milliseconds
  /-- How long it has read full by now, at most the timeout. -/
  fullFor : Milliseconds
  deriving DecidableEq, Repr

namespace PumpGovernor

def fresh (timeout : Milliseconds) : PumpGovernor :=
  ⟨timeout, timeout⟩

def pumpOn (g : PumpGovernor) : Bool :=
  g.fullFor < g.timeout

def update (g : PumpGovernor) (elapsed : Milliseconds) (full : Bool) : PumpGovernor :=
  if full then
    let fullFor := Exact.Word.saturatingAdd g.fullFor elapsed
    { g with fullFor := if fullFor < g.timeout then fullFor else g.timeout }
  else { g with fullFor := 0 }

def reset (g : PumpGovernor) : PumpGovernor :=
  fresh g.timeout

end PumpGovernor

end Brewhouse.Control
