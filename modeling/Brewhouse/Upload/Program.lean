import Brewhouse.Exact.Binary
import Brewhouse.Script

/-!
Setpoint programs and their form on the wire. A program is sent field by field, each field answered
before the next is sent:

```text
BEG | phase | mash water | count | count × (temperature, duration) | END
```

Tags take three bytes, numbers four, least significant byte first.
-/

namespace Brewhouse.Upload

/-- A temperature to hold for a time. The temperature is the bit pattern that travels, so that no
pattern is lost. -/
structure Setpoint where
  pattern : UInt32
  duration : Milliseconds
  deriving DecidableEq, Repr

def Setpoint.celsius (p : Setpoint) : Celsius :=
  Float32.ofBits p.pattern

def Setpoint.ofCelsius (t : Celsius) (duration : Milliseconds) : Setpoint :=
  ⟨t.toBits, duration⟩

structure Program where
  phase : Phase
  mashWater : Millilitres
  setpoints : List Setpoint
  deriving DecidableEq, Repr

/-- The tag that opens an upload. -/
def openingTag : Tag := .ofChars 'B' 'E' 'G'

def phaseTag : Phase → Tag
  | .initialising => .ofChars 'I' 'N' 'I'
  | .mashing => .ofChars 'M' 'S' 'H'
  | .sparging => .ofChars 'S' 'P' 'G'

namespace Program

/-- The fields of a program, in the order in which they are sent. -/
def fields (p : Program) : List (List UInt8) :=
  [openingTag.bytes, (phaseTag p.phase).bytes, Exact.Word.bytes p.mashWater,
      Exact.Word.bytes (UInt32.ofNat p.setpoints.length)] ++
    p.setpoints.flatMap (fun s => [Exact.Word.bytes s.pattern, Exact.Word.bytes s.duration]) ++
    [Tag.ending.bytes]

def encode (p : Program) : List UInt8 :=
  p.fields.flatten

/-- The script that runs a program: one hold for each setpoint. -/
def script (p : Program) (model : ThermalModel) : Script :=
  { Script.ofStatements model
      (p.setpoints.map fun s => .hold (some (s.celsius, s.duration))) with
    phase := p.phase
    mashWater := p.mashWater }

end Program

end Brewhouse.Upload
