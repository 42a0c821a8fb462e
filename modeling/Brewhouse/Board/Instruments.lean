import Brewhouse.Equipment
import Brewhouse.Fault
import Brewhouse.Journal

/-!
The board and the instruments on its pins. Any call on a pin can fail.
-/

namespace Brewhouse

inductive OutputPin where
  /-- The chip select of a vessel's converter, active low. -/
  | select (vessel : Vessel)
  | clock (vessel : Vessel)
  | relay (load : Load)
  deriving DecidableEq, Repr

inductive InputPin where
  /-- The serial data of a vessel's converter. -/
  | data (vessel : Vessel)
  | float (switch : FloatSwitch)
  deriving DecidableEq, Repr

/-- What a delay is for. -/
inductive Waiting where
  /-- Half a clock period of a vessel's converter. -/
  | clock (vessel : Vessel)
  /-- A part of the heater's window. -/
  | heaterWindow
  /-- The pause between two looks for the operator's answer. -/
  | resumePoll
  deriving DecidableEq, Repr

class Board (β : Type) where
  /-- Drives a pin high or low; the answer tells whether that took effect. -/
  write : OutputPin → Bool → β → Bool × β
  /-- The level of a pin, or nothing if it cannot be read. -/
  read : InputPin → β → Option Bool × β
  /-- Lets time pass. -/
  delay : Waiting → Milliseconds → β → β

/-! ### The thermocouple converter

While it is selected it shifts a frame of sixteen bits out, the most significant one first: twelve bits of
temperature in quarter degrees above bit 3, and bit 2 set when no thermocouple is attached. The clock runs
at half periods of one millisecond. -/

namespace Thermocouple

def decode (vessel : Vessel) (frame : UInt16) : Except SensorFault Celsius :=
  if frame &&& 4 ≠ 0 then .error (.disconnected vessel)
  else .ok ((frame >>> 3).toFloat32 * 0.25)

variable {β : Type} [Board β]

def halfPeriod (vessel : Vessel) (b : β) : β :=
  Board.delay (.clock vessel) 1 b

def shiftBit (vessel : Vessel) (b : β) : Option Bool × β :=
  match Board.write (.clock vessel) false b with
  | (false, b) => (none, b)
  | (true, b) =>
    match Board.read (.data vessel) (halfPeriod vessel b) with
    | (none, b) => (none, b)
    | (some bit, b) =>
      match Board.write (.clock vessel) true b with
      | (false, b) => (none, b)
      | (true, b) => (some bit, halfPeriod vessel b)

/-- Clocks `count` bits out behind the ones in `frame`, up to the first call that fails. -/
def shiftIn (vessel : Vessel) : Nat → UInt16 → β → Option UInt16 × β
  | 0, frame, b => (some frame, b)
  | count + 1, frame, b =>
    match shiftBit vessel b with
    | (none, b) => (none, b)
    | (some bit, b) => shiftIn vessel count (frame <<< 1 ||| if bit then 1 else 0) b

/-- Reads one frame. The converter is released again even when the shifting failed. -/
def readFrame (vessel : Vessel) (b : β) : Except SensorFault UInt16 × β :=
  match Board.write (.select vessel) false b with
  | (false, b) => (.error (.unreadable vessel), b)
  | (true, b) =>
    let (frame, b) := shiftIn vessel 16 0 (halfPeriod vessel b)
    let (released, b) := Board.write (.select vessel) true b
    match frame, released with
    | some frame, true => (.ok frame, b)
    | _, _ => (.error (.unreadable vessel), b)

def readCelsius (vessel : Vessel) (b : β) : Except SensorFault Celsius × β :=
  match readFrame vessel b with
  | (.ok frame, b) => (decode vessel frame, b)
  | (.error fault, b) => (.error fault, b)

/-- Releases the converter, as is done once at the start. A failure has no consequence. -/
def release (vessel : Vessel) (b : β) : β :=
  (Board.write (.select vessel) true b).2

end Thermocouple

/-! ### Float switches

A switch that cannot be read counts as full, so that the pump never starts blindly. -/

/-- A float switch with the level it showed last. -/
structure FloatSensor where
  switch : FloatSwitch
  last : Bool
  deriving DecidableEq, Repr

namespace FloatSensor

def fresh (switch : FloatSwitch) : FloatSensor :=
  ⟨switch, true⟩

variable {β : Type} [Board β]

def read (f : FloatSensor) (b : β) : Noted (FloatSensor × β) :=
  match Board.read (.float f.switch) b with
  | (some level, b) => ⟨[], { f with last := level }, b⟩
  | (none, b) => ⟨[.levelReadFailed], { f with last := true }, b⟩

end FloatSensor

/-! ### Relays

A relay remembers what it was told last; a write that fails leaves that as it was. -/

structure Relay where
  load : Load
  isOn : Bool
  deriving DecidableEq, Repr

namespace Relay

variable {β : Type} [Board β]

/-- A relay that is switched off to begin with. It counts as off even if that fails. -/
def install (load : Load) (b : β) : Noted (Relay × β) :=
  match Board.write (.relay load) false b with
  | (true, b) => ⟨[], ⟨load, false⟩, b⟩
  | (false, b) => ⟨[.relayWriteFailed load], ⟨load, false⟩, b⟩

def set (r : Relay) (on : Bool) (b : β) : Noted (Relay × β) :=
  match Board.write (.relay r.load) on b with
  | (true, b) => ⟨[], { r with isOn := on }, b⟩
  | (false, b) => ⟨[.relayWriteFailed r.load], r, b⟩

end Relay

end Brewhouse
