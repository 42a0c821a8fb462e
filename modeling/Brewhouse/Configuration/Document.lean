import Brewhouse.Configuration
import Brewhouse.Document

/-!
Configurations written as JSON documents: an object with all fields, in any order and with any
others beside them, or an array of exactly the fields in their order.
-/

namespace Brewhouse

namespace Document

def fieldNames : List String :=
  ["pid_p_gain", "pid_i_gain", "pid_d_gain", "heater_period_ms", "pump_full_timeout_ms",
    "min_setpoint_c", "max_setpoint_c", "max_target_c", "vessel_volume_ml", "heat_loss_c",
    "sensor_settle_ms", "link_baud"]

/-- Whether a number is an integer of 64 bits, which is converted in one rounding. A negative zero
is not one. -/
def isLong (value : Exact.Decimal) (integer : Bool) : Bool :=
  integer && if value.negative then 0 < value.digits && value.digits ≤ 9223372036854775808
    else value.digits ≤ 18446744073709551615

/-- A number in single precision. One that is too large becomes infinite. -/
def single? : Document → Option Float32
  | .number value integer =>
    some (if isLong value integer then Exact.Single.ofMagnitude value.negative value.digits
      else value.single)
  | _ => none

/-- A number that is written as an integer and fits into 32 bits. -/
def word? : Document → Option UInt32
  | .number value true =>
    if value.negative = false ∧ value.digits ≤ 4294967295 then some (UInt32.ofNat value.digits)
    else none
  | _ => none

/-- The configuration of twelve values in their order. -/
def ofValues? : List Document → Option Configuration
  | [p, i, d, period, timeout, lowest, highest, ceiling, volume, loss, settle, baud] => do
    pure
      { proportionalGain := ← p.single?
        integralGain := ← i.single?
        derivativeGain := ← d.single?
        heaterPeriod := ← period.word?
        pumpFullTimeout := ← timeout.word?
        minSetpoint := ← lowest.single?
        maxSetpoint := ← highest.single?
        maxTarget := ← ceiling.single?
        vesselVolume := ← volume.single?
        heatLoss := ← loss.single?
        sensorSettle := ← settle.word?
        linkBaud := ← baud.word? }
  | _ => none

def configuration? : Document → Option Configuration
  | .array items => ofValues? items
  | .object fields => (fieldNames.mapM (field? fields)).bind ofValues?
  | _ => none

end Document

def Configuration.ofText? (source : String) : Option Configuration :=
  (Document.ofText? source).bind Document.configuration?

end Brewhouse
