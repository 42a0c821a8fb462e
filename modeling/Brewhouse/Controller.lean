import Brewhouse.Configuration
import Brewhouse.Control

/-!
The controller. It runs one script at a time: each tick it takes the readings in, steps the script,
works out heater and pump, and reports. Everything it does to the world outside is returned as a
list of actions, in order; it is for others to perform them.
-/

namespace Brewhouse

inductive RunState where
  | awaitingScript
  | running
  | completed
  | failed
  deriving DecidableEq, Repr

/-- What the controller asks of the world outside. -/
inductive Action where
  | readTemperature (vessel : Vessel)
  | readLevel (switch : FloatSwitch)
  /-- Heater and pump off, without waiting. -/
  | allOff
  /-- Drive the heater through one window, which may take as long as the window. -/
  | setHeater (duty : Control.HeaterDuty)
  | setPump (on : Bool)
  /-- Wait until the operator resumes. -/
  | awaitResume
  | emit (event : Event)
  | note (notice : Notice)
  deriving DecidableEq

/-- What the instruments answer in one tick, should they be asked. -/
structure Readings where
  hlt : Except SensorFault Celsius
  mash : Except SensorFault Celsius
  mashTunFull : Bool
  kettleFull : Bool

/-- A controller between two calls. -/
structure Controller where
  configuration : Configuration
  script : Script
  regulator : Control.Regulator
  pump : Control.PumpGovernor
  state : RunState
  /-- The duty of the heater in the last tick. -/
  duty : Control.HeaterDuty
  /-- The last report. -/
  last : Option Telemetry
  ticks : Nat
  deriving DecidableEq

/-- What the operator can ask for. -/
inductive Order where
  /-- Run a script in place of whatever is running. -/
  | load (script : Script)
  /-- Give the running script up and switch everything off. -/
  | abort

/-- How a tick ended. -/
inductive Verdict where
  /-- No script is running and nothing was touched. -/
  | idle
  | running
  /-- The script has come to its end. -/
  | finished
  | sensorFault (fault : SensorFault)
  | scriptFault (fault : ScriptFault)
  /-- The regulator had no result. -/
  | unregulated
  deriving DecidableEq, Repr

/-- A tick: the controller after it, how it ended and what it asked for. -/
structure Tick where
  controller : Controller
  verdict : Verdict
  actions : List Action

inductive TickOutcome where
  | idle
  | running
  /-- The operator was waited for, for so long. -/
  | resumed (paused : Milliseconds)
  | finished
  deriving DecidableEq, Repr

/-- What a tick tells its caller once its waits have been sat out; `none` when the regulator had no
result. -/
def Tick.outcome? (t : Tick) (waits : List Milliseconds) : Option (Except Fault TickOutcome) :=
  match t.verdict with
  | .idle => some (.ok .idle)
  | .finished => some (.ok .finished)
  | .sensorFault fault => some (.error (.sensor fault))
  | .scriptFault fault => some (.error (.script fault))
  | .running =>
    if waits.isEmpty then some (.ok .running)
    else some (.ok (.resumed (waits.foldl Exact.Word.saturatingAdd 0)))
  | .unregulated => none

/-- What a script's signal asks for: a pause switches everything off before the operator has the
word. -/
def Signal.actions : Signal → List Action
  | .pause => [.allOff, .emit .paused, .awaitResume, .emit .resumed]
  | .note notice => [.note notice]

namespace Controller

def fresh (c : Configuration) : Controller where
  configuration := c
  script := .empty c.thermalModel
  regulator := c.regulator 0
  pump := .fresh c.pumpFullTimeout
  state := .awaitingScript
  duty := .idle c.heaterPeriod
  last := none
  ticks := 0

def isRunning (c : Controller) : Bool :=
  c.state == .running

def load (c : Controller) (script : Script) : Controller × List Action :=
  ({ c with
      script := script
      regulator := c.configuration.regulator 0
      pump := .fresh c.configuration.pumpFullTimeout
      duty := .idle c.configuration.heaterPeriod
      state := .running },
    [.note (.scriptLoaded script.statements.length script.phase script.mashWater),
      .emit (.scriptLoaded script.phase script.statements.length)])

/-- Follows an order. Everything is switched off first. -/
def obey (c : Controller) : Order → Controller × List Action
  | .load script =>
    let (c, actions) := c.load script
    (c, .allOff :: actions)
  | .abort =>
    ({ c with script := c.script.reset, state := .awaitingScript },
      .allOff ::
        if c.isRunning then [.note (.scriptAborted c.script.cursor), .emit .scriptAborted] else [])

/-! ### Ticks -/

/-- The tag that a report shows: of the active statement, or how the script ended. -/
def reportTag (c : Controller) : Tag :=
  match c.state with
  | .failed => .failed
  | _ =>
    match c.script.active? with
    | some statement => statement.tag
    | none => .ending

def report (c : Controller) (x : Sample) (r : Readings) (pumpOn : Bool) : Telemetry where
  phase := c.script.phase
  tag := c.reportTag
  elapsedInInterval := c.script.elapsedInInterval
  intervalDuration := c.script.intervalDuration
  hlt := x.hlt
  mash := x.mash
  setpoint := c.script.setpoint?
  target := c.script.target
  heaterOn := c.duty.on
  pumpOn := pumpOn
  mashTunFull := r.mashTunFull
  kettleFull := r.kettleFull

/-- Ends a tick whose reading failed. The script is left as it is and tried again next time. -/
def endFaulty (c : Controller) (reads : List Action) (fault : SensorFault) : Tick :=
  ⟨c, .sensorFault fault,
    reads ++ [.note (.sensorFault c.ticks fault), .allOff, .emit (.sensorFault fault)]⟩

/-- Ends a tick in which the script ended: everything off, a last report and the news. -/
def endScript (c : Controller) (x : Sample) (r : Readings) (state : RunState) (verdict : Verdict)
    (crossed : List Action) (news : Event) : Tick :=
  let c := { c with state := state, duty := .idle c.configuration.heaterPeriod }
  let report := c.report x r false
  ⟨{ c with last := some report }, verdict,
    crossed ++ [.allOff, .emit (.telemetry report), .emit news]⟩

/-- The regulator for a target. It starts anew whenever the target moves by as little as a bit. -/
def regulatorFor (c : Controller) (target : Celsius) : Control.Regulator :=
  if c.regulator.setpoint.toBits = target.toBits then c.regulator
  else c.configuration.regulator target

/-- The regulator after a reading, and the duty it asks for. -/
def regulate? (c : Controller) (x : Sample) : Option (Control.Regulator × Control.HeaterDuty) :=
  match c.script.target with
  | none => some (c.regulator, .idle c.configuration.heaterPeriod)
  | some target => do
    let (regulator, output) ← (c.regulatorFor target).next? x.hlt x.elapsed
    pure (regulator, .ofOutput output regulator.limit c.configuration.heaterPeriod)

/-- Ends a tick in which the script goes on: the report, then pump and heater. The heater comes
last, as its window may take as long as a tick. -/
def endRunning (c : Controller) (x : Sample) (r : Readings) (crossed : List Action) : Tick :=
  match c.regulate? x with
  | none => ⟨c, .unregulated, crossed⟩
  | some (regulator, duty) =>
    let pump := c.pump.update x.elapsed r.mashTunFull
    let c := { c with regulator := regulator, pump := pump, duty := duty }
    let report := c.report x r pump.pumpOn
    ⟨{ c with last := some report }, .running,
      crossed ++ [.emit (.telemetry report), .setPump pump.pumpOn, .setHeater duty]⟩

/-- The part of a tick after the readings: the script, then what comes of it. -/
def carryOn (c : Controller) (x : Sample) (r : Readings) : Tick :=
  let step := c.script.step x
  let crossed :=
    [.readTemperature .hotLiquor, .readTemperature .mashTun, .readLevel .mashTun,
      .readLevel .kettle] ++ step.signals.flatMap Signal.actions
  let c := { c with script := step.script }
  match step.fault with
  | some fault => c.endScript x r .failed (.scriptFault fault) crossed (.scriptFailed fault)
  | none =>
    if c.script.completed then c.endScript x r .completed .finished crossed .scriptCompleted
    else c.endRunning x r crossed

/-- One tick, `elapsed` after the one before. Nothing happens unless a script is running. The mash
tun is read only after the hot liquor tank, and the float switches only after both. -/
def tick (c : Controller) (elapsed : Milliseconds) (r : Readings) : Tick :=
  if c.isRunning then
    let c := { c with ticks := c.ticks + 1 }
    match r.hlt with
    | .error fault => c.endFaulty [.readTemperature .hotLiquor] fault
    | .ok hlt =>
      match r.mash with
      | .error fault =>
        c.endFaulty [.readTemperature .hotLiquor, .readTemperature .mashTun] fault
      | .ok mash => c.carryOn ⟨elapsed, hlt, mash⟩ r
  else ⟨c, .idle, []⟩

end Controller

end Brewhouse
