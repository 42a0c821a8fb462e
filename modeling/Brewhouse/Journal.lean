import Brewhouse.Exact.Decimal
import Brewhouse.Fault
import Brewhouse.Telemetry

/-!
What the controller has to tell: events for the operator's side, and the journal of notices that its parts
leave for its keeper. Every notice has a level and a text.
-/

namespace Brewhouse

inductive Event where
  /-- The status of a tick. -/
  | telemetry (report : Telemetry)
  | scriptLoaded (phase : Phase) (statements : Nat)
  | scriptCompleted
  | scriptFailed (fault : ScriptFault)
  /-- The operator gave the running script up. -/
  | scriptAborted
  /-- A temperature could not be read; everything is off for this tick. -/
  | sensorFault (fault : SensorFault)
  /-- The script waits for the operator; everything is off. -/
  | paused
  | resumed
  deriving DecidableEq

inductive Level where
  | error
  | warning
  | information
  | detail
  deriving DecidableEq, Repr

/-- What a part of the controller has to say. -/
inductive Notice where
  | scriptPaused (cursor : Nat)
  | scriptResumed
  | rampUpComplete (hlt target : Celsius)
  | targetReached (hlt target : Celsius)
  | unknownCommand (tag : Tag)
  | scriptCompleted
  | scriptLoaded (statements : Nat) (phase : Phase) (mashWater : Millilitres)
  | scriptAborted (cursor : Nat)
  | sensorFault (tick : Nat) (fault : SensorFault)
  | uploadRefused (fault : UploadFault)
  | uploadReceived (setpoints : Nat) (phase : Phase)
  | relayWriteFailed (load : Load)
  | levelReadFailed
  | heaterWindow (on period : Milliseconds)
  | consoleWriteFailed (fault : LinkFault)
  | consoleReadFailed (fault : LinkFault)
  | event (e : Event)
  deriving DecidableEq

namespace Event

def level : Event → Level
  | .scriptFailed _ => .error
  | .scriptAborted | .sensorFault _ => .warning
  | _ => .information

def targetText : Option Celsius → String
  | some t => "Some(" ++ Exact.Shortest.text t ++ ")"
  | none => "None"

/-- The journal's account of a status report. -/
def telemetryText (t : Telemetry) : String :=
  "TELEM | mode=" ++ t.phase.name ++ " step=" ++ t.tag.text ++ " | " ++
    toString t.elapsedInInterval.toNat ++ "/" ++ toString t.intervalDuration.toNat ++
    " ms | HLT=" ++ Exact.Hundredths.text t.hlt ++ "°C mash=" ++ Exact.Hundredths.text t.mash ++
    "°C | target=" ++ targetText t.target ++ " | heater=" ++ toString t.heaterOn.toNat ++
    "ms pump=" ++ switchWord t.pumpOn ++ " | bobbers=" ++ levelDigit t.mashTunFull ++ "/" ++
    levelDigit t.kettleFull

def journalText : Event → String
  | .telemetry report => telemetryText report
  | .scriptLoaded phase statements =>
    "SCRIPT | loaded " ++ toString statements ++ " statements, mode=" ++ phase.name
  | .scriptCompleted => "SCRIPT | completed"
  | .scriptFailed fault => "SCRIPT | failed: " ++ fault.message
  | .scriptAborted => "SCRIPT | aborted"
  | .sensorFault fault => "FAULT | " ++ fault.message
  | .paused => "PAUSE | waiting for operator"
  | .resumed => "PAUSE | resumed"

end Event

namespace Notice

def level : Notice → Level
  | .unknownCommand _ => .error
  | .scriptAborted _ | .sensorFault .. | .uploadRefused _ | .relayWriteFailed _
  | .levelReadFailed | .consoleWriteFailed _ | .consoleReadFailed _ => .warning
  | .targetReached .. | .heaterWindow .. => .detail
  | .event e => e.level
  | _ => .information

def text : Notice → String
  | .scriptPaused cursor => "Script paused at statement " ++ toString cursor
  | .scriptResumed => "Script resumed"
  | .rampUpComplete hlt target =>
    "Ramp-up complete at " ++ Exact.Hundredths.text hlt ++ " (target " ++
      Exact.Hundredths.text target ++ ")"
  | .targetReached hlt target =>
    "HEA: " ++ Exact.Hundredths.text hlt ++ " reached target " ++ Exact.Hundredths.text target
  | .unknownCommand tag => "Unknown script command \"" ++ tag.text ++ "\", aborting script"
  | .scriptCompleted => "Script completed"
  | .scriptLoaded statements phase mashWater =>
    "Script loaded: " ++ toString statements ++ " statements, mode " ++ phase.name ++
      ", mash water " ++ toString mashWater.toNat ++ " mL"
  | .scriptAborted cursor => "Script aborted at statement " ++ toString cursor
  | .sensorFault tick fault => "Sensor fault on tick " ++ toString tick ++ ": " ++ fault.message
  | .uploadRefused fault => "Script load rejected: " ++ fault.message
  | .uploadReceived setpoints phase =>
    "Script received: " ++ toString setpoints ++ " setpoints, mode " ++ phase.name
  | .relayWriteFailed load => load.name ++ " relay: GPIO write failed"
  | .levelReadFailed => "Float switch read failed, assuming full"
  | .heaterWindow on period =>
    "Heater window " ++ toString on.toNat ++ "/" ++ toString period.toNat ++ " ms"
  | .consoleWriteFailed fault => "Console write failed: " ++ fault.message
  | .consoleReadFailed fault => "Console read failed while paused: " ++ fault.message
  | .event e => e.journalText

end Notice

/-- A value together with the notices left while it was worked out, in order. -/
structure Noted (α : Type) where
  notices : List Notice
  value : α

namespace Noted

def note (n : Notice) : Noted Unit :=
  ⟨[n], ()⟩

instance : Monad Noted where
  pure a := ⟨[], a⟩
  bind x f := ⟨x.notices ++ (f x.value).notices, (f x.value).value⟩

end Noted

end Brewhouse
