import Brewhouse.Control
import Brewhouse.Equipment
import Brewhouse.Fault
import Brewhouse.Upload.Loader

/-!
The configuration of a brewery: regulator, pump, setpoint range, thermal model and hardware.
-/

namespace Brewhouse

structure Configuration where
  proportionalGain : Float32
  integralGain : Float32
  derivativeGain : Float32
  /-- The heater's window, and with it the output of the regulator at full power. -/
  heaterPeriod : Milliseconds
  /-- How long the float switch has to read full before the pump stops. -/
  pumpFullTimeout : Milliseconds
  /-- The lowest setpoint an upload may have. -/
  minSetpoint : Celsius
  /-- The highest setpoint an upload may have. -/
  maxSetpoint : Celsius
  /-- The ceiling of all targets. -/
  maxTarget : Celsius
  vesselVolume : Float32
  heatLoss : Celsius
  /-- How long the converters take after they are powered. -/
  sensorSettle : Milliseconds
  linkBaud : UInt32
  deriving DecidableEq

namespace Configuration

def standard : Configuration where
  proportionalGain := 100
  integralGain := 1
  derivativeGain := 20
  heaterPeriod := 1000
  pumpFullTimeout := 5000
  minSetpoint := 0
  maxSetpoint := 79
  maxTarget := 79
  vesselVolume := 32000
  heatLoss := 1
  sensorSettle := 500
  linkBaud := 9600

/-- The first rule that a configuration breaks, if it breaks one. A comparison with NaN is false, so
a rule that asks for a comparison to fail lets NaN pass. -/
def fault? (c : Configuration) : Option ConfigurationFault :=
  if c.proportionalGain < 0 || c.integralGain < 0 || c.derivativeGain < 0 then some .negativeGain
  else if c.heaterPeriod = 0 then some .noHeaterPeriod
  else if c.maxSetpoint ≤ c.minSetpoint then some .setpointsInverted
  else if c.maxTarget < c.maxSetpoint then some .setpointsAboveCeiling
  else if !(0 ≤ c.maxTarget && c.maxTarget < 100) then some .ceilingNotBelowBoiling
  else if c.vesselVolume ≤ 0 then some .noVesselVolume
  else if c.heatLoss < 0 then some .negativeHeatLoss
  else if c.linkBaud = 0 then some .noBaudRate
  else none

/-- The output of the regulator at full power: one unit for each millisecond of heating. -/
def outputLimit (c : Configuration) : Float32 :=
  c.heaterPeriod.toFloat32

def gains (c : Configuration) : Control.Gains :=
  ⟨c.proportionalGain, c.integralGain, c.derivativeGain⟩

def thermalModel (c : Configuration) : ThermalModel :=
  ⟨c.vesselVolume, c.heatLoss, c.maxTarget⟩

def setpointLimits (c : Configuration) : Upload.Limits :=
  ⟨c.minSetpoint, c.maxSetpoint⟩

def regulator (c : Configuration) (target : Celsius) : Control.Regulator :=
  .fresh target c.gains c.outputLimit

end Configuration

end Brewhouse
