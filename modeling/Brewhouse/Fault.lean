import Brewhouse.Equipment
import Brewhouse.Statement

/-!
What can go wrong, by part: each part has its causes and one function for their texts. `Fault`
gathers the causes of all parts. Texts that go into a bounded line are made of pieces.
-/

namespace Brewhouse

inductive SensorFault where
  /-- The thermocouple is not attached. -/
  | disconnected (vessel : Vessel)
  /-- A pin of the converter failed. -/
  | unreadable (vessel : Vessel)
  deriving DecidableEq, Repr

/-- The text of a sensor fault in the pieces in which it is written. -/
def SensorFault.pieces : SensorFault → List String
  | .disconnected vessel => [vessel.name, " thermocouple disconnected"]
  | .unreadable vessel => [vessel.name, " thermocouple GPIO failed"]

def SensorFault.message (fault : SensorFault) : String :=
  String.join fault.pieces

/-- Why an upload was refused. -/
inductive UploadFault where
  | expectedBegin
  | unknownMode
  | tooManySetpoints
  | temperatureOutOfRange
  | expectedEnd
  deriving DecidableEq, Repr

def UploadFault.message : UploadFault → String
  | .expectedBegin => "expected BEG"
  | .unknownMode => "unknown mode"
  | .tooManySetpoints => "too many setpoints"
  | .temperatureOutOfRange => "temperature out of range"
  | .expectedEnd => "expected END"

inductive ScriptFault where
  | unknownCommand (tag : Tag)
  deriving DecidableEq, Repr

/-- The text of a script fault in the pieces in which it is written. -/
def ScriptFault.pieces : ScriptFault → List String
  | .unknownCommand tag => ["unknown command \""] ++ tag.pieces ++ ["\""]

def ScriptFault.message (fault : ScriptFault) : String :=
  String.join fault.pieces

inductive LinkFault where
  | readFailed
  | writeFailed
  /-- The other end accepts nothing any more. -/
  | closed
  deriving DecidableEq, Repr

def LinkFault.message : LinkFault → String
  | .readFailed => "read failed"
  | .writeFailed => "write failed"
  | .closed => "link closed"

/-- Why a configuration is refused. -/
inductive ConfigurationFault where
  | negativeGain
  | noHeaterPeriod
  | setpointsInverted
  | setpointsAboveCeiling
  | ceilingNotBelowBoiling
  | noVesselVolume
  | negativeHeatLoss
  | noBaudRate
  deriving DecidableEq, Repr

def ConfigurationFault.message : ConfigurationFault → String
  | .negativeGain => "PID gains must be non-negative"
  | .noHeaterPeriod => "heater_period_ms must be positive"
  | .setpointsInverted => "min_setpoint_c must be below max_setpoint_c"
  | .setpointsAboveCeiling => "max_setpoint_c must not exceed max_target_c"
  | .ceilingNotBelowBoiling => "max_target_c must be below boiling"
  | .noVesselVolume => "vessel_volume_ml must be positive"
  | .negativeHeatLoss => "heat_loss_c must be non-negative"
  | .noBaudRate => "link_baud must be positive"

inductive Fault where
  | sensor (fault : SensorFault)
  | upload (fault : UploadFault)
  | script (fault : ScriptFault)
  | link (fault : LinkFault)
  | configuration (fault : ConfigurationFault)
  deriving DecidableEq, Repr

def Fault.message : Fault → String
  | .sensor fault => "sensor: " ++ fault.message
  | .upload fault => "protocol: " ++ fault.message
  | .script fault => "script: " ++ fault.message
  | .link fault => "link: " ++ fault.message
  | .configuration fault => "config: " ++ fault.message

end Brewhouse
