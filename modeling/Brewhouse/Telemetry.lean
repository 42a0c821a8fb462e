import Brewhouse.Equipment
import Brewhouse.Exact.Decimal
import Brewhouse.Statement

/-!
The status line that the controller publishes once per tick: twelve columns between commas. A line has room
for a number of bytes and is written piece by piece; the first piece that does not fit is left out together
with all that follows.
-/

namespace Brewhouse

namespace Text

/-- The pieces that fit into `room` bytes, joined. -/
def fit : Nat → List String → String
  | _, [] => ""
  | room, piece :: pieces =>
    if piece.utf8ByteSize ≤ room then piece ++ fit (room - piece.utf8ByteSize) pieces else ""

end Text

structure Telemetry where
  phase : Phase
  tag : Tag
  elapsedInInterval : Milliseconds
  intervalDuration : Milliseconds
  hlt : Celsius
  mash : Celsius
  setpoint : Option Celsius
  target : Option Celsius
  heaterOn : Milliseconds
  pumpOn : Bool
  mashTunFull : Bool
  kettleFull : Bool
  deriving DecidableEq

def switchWord (on : Bool) : String :=
  if on then "ON" else "OFF"

/-- The digit for a float switch that reads full or not. -/
def levelDigit (full : Bool) : String :=
  if full then "1" else "0"

namespace Telemetry

/-- The bytes a status line has room for. -/
def capacity : Nat := 128

/-- A temperature has two decimal places; one that is missing or not finite is `N/A`. -/
def celsiusPieces : Option Celsius → List String
  | some t => if t.isFinite then Exact.Hundredths.pieces t else ["N/A"]
  | none => ["N/A"]

/-- The twelve columns, each in the pieces in which it is written. -/
def columns (t : Telemetry) : List (List String) :=
  [[t.phase.name], t.tag.pieces, [toString t.elapsedInInterval.toNat],
    [toString t.intervalDuration.toNat], celsiusPieces (some t.hlt), celsiusPieces (some t.mash),
    celsiusPieces t.setpoint, celsiusPieces t.target, [toString t.heaterOn.toNat],
    [switchWord t.pumpOn], [levelDigit t.mashTunFull], [levelDigit t.kettleFull]]

def pieces (t : Telemetry) : List String :=
  [","].intercalate t.columns

def text (t : Telemetry) : String :=
  String.join t.pieces

/-- The text as far as a status line has room for it. -/
def line (t : Telemetry) : String :=
  Text.fit capacity t.pieces

end Telemetry

end Brewhouse
