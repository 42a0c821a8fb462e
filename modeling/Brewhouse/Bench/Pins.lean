import Brewhouse.Board.Instruments

/-!
A simulated board for trying equipment out at a desk. Its converters shift out frames that are set
by hand, its float switches show levels that are set by hand, chosen pins fail, and all calls are
recorded.
-/

namespace Brewhouse.Bench

inductive Entry where
  | wrote (pin : OutputPin) (high tookEffect : Bool)
  | sampled (pin : InputPin) (level : Option Bool)
  | waited (what : Waiting) (time : Milliseconds)
  deriving DecidableEq, Repr

structure Pins where
  /-- The frame that a converter shifts out when it is selected. -/
  frame : Vessel → UInt16
  /-- What a selected converter still has to shift out. -/
  shifting : Vessel → UInt16
  /-- The level of a float switch; none if it cannot be read. -/
  level : FloatSwitch → Option Bool
  failingOutputs : List OutputPin
  failingInputs : List InputPin
  /-- After how many further calls a single call fails. -/
  failAfter : Option Nat
  /-- The calls so far, the latest first. -/
  record : List Entry

namespace Pins

/-- A board with empty frames and float switches that cannot be read. -/
def idle : Pins where
  frame := fun _ => 0
  shifting := fun _ => 0
  level := fun _ => none
  failingOutputs := []
  failingInputs := []
  failAfter := none
  record := []

/-- Counts a call; the answer tells whether it is the one that fails. -/
def count (p : Pins) : Bool × Pins :=
  match p.failAfter with
  | none => (false, p)
  | some 0 => (true, { p with failAfter := none })
  | some (further + 1) => (false, { p with failAfter := some further })

/-- A converter restarts its frame when it is selected and shifts when its clock goes high. -/
def respond (p : Pins) (pin : OutputPin) (high : Bool) : Pins :=
  match pin, high with
  | .select vessel, false =>
    { p with shifting := fun v => if v = vessel then p.frame v else p.shifting v }
  | .clock vessel, true =>
    { p with shifting := fun v => if v = vessel then p.shifting v <<< 1 else p.shifting v }
  | _, _ => p

def write (pin : OutputPin) (high : Bool) (p : Pins) : Bool × Pins :=
  let (fails, p) := p.count
  let tookEffect := !(fails || p.failingOutputs.contains pin)
  let p := { p with record := .wrote pin high tookEffect :: p.record }
  (tookEffect, if tookEffect then p.respond pin high else p)

def read (pin : InputPin) (p : Pins) : Option Bool × Pins :=
  let (fails, p) := p.count
  let level :=
    if fails || p.failingInputs.contains pin then none
    else
      match pin with
      | .data vessel => some (p.shifting vessel &&& 0x8000 != 0)
      | .float switch => p.level switch
  (level, { p with record := .sampled pin level :: p.record })

instance : Board Pins where
  write := write
  read := read
  delay what time p := { p with record := .waited what time :: p.record }

def setFrame (p : Pins) (vessel : Vessel) (frame : UInt16) : Pins :=
  { p with frame := fun v => if v = vessel then frame else p.frame v }

def setLevel (p : Pins) (switch : FloatSwitch) (level : Option Bool) : Pins :=
  { p with level := fun s => if s = switch then level else p.level s }

def setOutputFailing (p : Pins) (pin : OutputPin) (failing : Bool) : Pins :=
  { p with
    failingOutputs :=
      if failing then pin :: p.failingOutputs else p.failingOutputs.filter (· != pin) }

def setInputFailing (p : Pins) (pin : InputPin) (failing : Bool) : Pins :=
  { p with
    failingInputs :=
      if failing then pin :: p.failingInputs else p.failingInputs.filter (· != pin) }

/-- The record so far, in order, and the board with a new record. -/
def takeRecord (p : Pins) : List Entry × Pins :=
  (p.record.reverse, { p with record := [] })

end Pins

end Brewhouse.Bench
