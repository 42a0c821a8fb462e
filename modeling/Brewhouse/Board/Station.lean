import Brewhouse.Board.Instruments
import Brewhouse.Controller

/-!
The station: all equipment on one board, as the controller sees it.
-/

namespace Brewhouse

structure Station (β : Type) where
  board : β
  mashTun : FloatSensor
  kettle : FloatSensor
  heater : Relay
  pump : Relay

namespace Station

variable {β : Type} [Board β]

/-- A station on a board: the converters released, the relays off. -/
def install (b : β) : Noted (Station β) := do
  let b := Thermocouple.release .mashTun (Thermocouple.release .hotLiquor b)
  let (heater, b) ← Relay.install .heater b
  let (pump, b) ← Relay.install .pump b
  pure ⟨b, .fresh .mashTun, .fresh .kettle, heater, pump⟩

def readTemperature (s : Station β) (vessel : Vessel) : Except SensorFault Celsius × Station β :=
  let (reading, b) := Thermocouple.readCelsius vessel s.board
  (reading, { s with board := b })

def readLevel (s : Station β) : FloatSwitch → Noted (Bool × Station β)
  | .mashTun => do
    let (mashTun, b) ← s.mashTun.read s.board
    pure (mashTun.last, { s with mashTun := mashTun, board := b })
  | .kettle => do
    let (kettle, b) ← s.kettle.read s.board
    pure (kettle.last, { s with kettle := kettle, board := b })

def setLoad (s : Station β) (load : Load) (on : Bool) : Noted (Station β) :=
  match load with
  | .heater => do
    let (heater, b) ← s.heater.set on s.board
    pure { s with heater := heater, board := b }
  | .pump => do
    let (pump, b) ← s.pump.set on s.board
    pure { s with pump := pump, board := b }

/-- Lets a part of the heater's window pass. -/
def waitInWindow (s : Station β) (time : Milliseconds) : Station β :=
  { s with board := Board.delay .heaterWindow time s.board }

def allOff (s : Station β) : Noted (Station β) := do
  let s ← s.setLoad .heater false
  s.setLoad .pump false

/-- Drives the heater through one window: on for a part, off for the rest. After a window that is
on throughout, the relay stays closed. -/
def setHeater (s : Station β) (duty : Control.HeaterDuty) : Noted (Station β) := do
  Noted.note (.heaterWindow duty.on duty.period)
  let s ← if 0 < duty.on then
      (do
        let s ← s.setLoad .heater true
        pure (s.waitInWindow duty.on))
    else pure s
  if 0 < duty.off ∨ duty.isOff then
    let s ← s.setLoad .heater false
    pure (s.waitInWindow duty.off)
  else pure s

/-- What the instruments would answer if they were asked one after the other. -/
def readings (s : Station β) : Readings :=
  let (hlt, s) := s.readTemperature .hotLiquor
  let (mash, s) := s.readTemperature .mashTun
  let (mashTunFull, s) := (s.readLevel .mashTun).value
  let (kettleFull, _) := (s.readLevel .kettle).value
  { hlt, mash, mashTunFull, kettleFull }

end Station

end Brewhouse
