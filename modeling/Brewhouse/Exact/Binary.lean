/-!
Machine numbers: 32-bit words, and binary floating-point formats as sets of rational numbers.
`Format.round` sends a rational number to the nearest member of its format, so a calculation in such a
format is an exact calculation with one rounding after each step.
-/

namespace Brewhouse.Exact

/-! ### Words -/

namespace Word

/-- The sum, or the largest word where the sum does not fit. -/
def saturatingAdd (a b : UInt32) : UInt32 :=
  if a.toNat + b.toNat < 4294967296 then a + b else 4294967295

/-- The four bytes, least significant first. -/
def bytes (w : UInt32) : List UInt8 :=
  [w.toUInt8, (w >>> 8).toUInt8, (w >>> 16).toUInt8, (w >>> 24).toUInt8]

def ofBytes (bytes : List UInt8) : UInt32 :=
  bytes.foldr (fun b w => w * 256 + b.toUInt32) 0

end Word

/-! ### Nearest integers -/

/-- The nearest integer; a half goes to the even neighbour. -/
def nearestEven (q : Rat) : Int :=
  let below := q.floor
  let rest := q - below
  if rest < 1 / 2 then below
  else if 1 / 2 < rest then below + 1
  else if below % 2 = 0 then below
  else below + 1

/-- The nearest integer; a half goes away from zero. -/
def nearestAway (q : Rat) : Int :=
  if 0 ≤ q then (q + 1 / 2).floor else -(1 / 2 - q).floor

/-! ### Formats -/

def twoPow (k : Int) : Rat :=
  (2 : Rat) ^ k

/-- The exponent of the largest power of two that is not above a positive `q`. -/
def binade (q : Rat) : Int :=
  let guess : Int := (q.num.natAbs.log2 : Int) - (q.den.log2 : Int)
  if twoPow guess ≤ q then guess else guess - 1

/-- A binary format: its members are the multiples of `2 ^ leastExponent` with at most `precision`
significant bits and a magnitude below `2 ^ limit`. -/
structure Format where
  precision : Nat
  leastExponent : Int
  limit : Int
  deriving DecidableEq, Repr

namespace Format

def single : Format := ⟨24, -149, 128⟩

def double : Format := ⟨53, -1074, 1024⟩

/-- The exponent of the last place that members of the size of `q` have. -/
def lastPlace (f : Format) (q : Rat) : Int :=
  if q = 0 then f.leastExponent else max (binade q + 1 - f.precision) f.leastExponent

/-- The member nearest to a non-negative `q`, ties to the even last place; `none` when the
magnitude leaves the format. -/
def roundMagnitude (f : Format) (q : Rat) : Option Rat :=
  let unit := twoPow (f.lastPlace q)
  let r := (nearestEven (q / unit) : Rat) * unit
  if r < twoPow f.limit then some r else none

/-- The member nearest to `q`; `none` when the magnitude leaves the format. -/
def round (f : Format) (q : Rat) : Option Rat :=
  if q < 0 then (f.roundMagnitude (-q)).map (- ·) else f.roundMagnitude q

end Format

/-! ### Single precision

Reading a number off its bit pattern, building a pattern from a magnitude, and the operations on readings
and bounds whose treatment of NaN and of signed zero matters to the controller. -/

namespace Single

/-- Whether the sign bit is set, also on a zero. -/
def isNegative (x : Float32) : Bool :=
  2147483648 ≤ x.toBits.toNat

/-- The absolute value of a finite number; `none` for infinities and NaN. -/
def magnitude? (x : Float32) : Option Rat :=
  let pattern := x.toBits.toNat
  let exponent := pattern / 8388608 % 256
  let fraction := pattern % 8388608
  if exponent = 255 then none
  else if exponent = 0 then some ((fraction : Rat) * twoPow (-149))
  else some (((8388608 + fraction : Nat) : Rat) * twoPow ((exponent : Int) - 150))

/-- The pattern of the infinity of a sign. -/
def infinity (negative : Bool) : Float32 :=
  Float32.ofBits (if negative then 0xff800000 else 0x7f800000)

/-- The single-precision number nearest to a magnitude, with the given sign; a magnitude past the
format becomes infinity. A magnitude `m * 2 ^ e` in the format has the pattern
`(e + 149) * 2 ^ 23 + m`, for subnormal numbers as well. -/
def ofMagnitude (negative : Bool) (q : Rat) : Float32 :=
  match Format.single.roundMagnitude q with
  | none => infinity negative
  | some r =>
    let place := Format.single.lastPlace r
    let units := (r / twoPow place).floor.toNat
    let pattern := (place + 149).toNat * 8388608 + units
    Float32.ofBits (UInt32.ofNat (if negative then 2147483648 + pattern else pattern))

/-- The smaller of two numbers. A NaN loses, and of two equal zeros the first is taken. -/
def least (a b : Float32) : Float32 :=
  if a.isNaN then b else if b < a then b else a

/-- `x` moved into the range from `low` to `high`, a NaN left as it is; `none` when the bounds are
not in order, as when one of them is NaN. -/
def clamp? (low high x : Float32) : Option Float32 :=
  if low ≤ high then
    let raised := if x < low then low else x
    some (if high < raised then high else raised)
  else none

/-- The nearest 32-bit word, halves away from zero. Numbers outside the range go to its ends and
NaN to zero. -/
def nearestWord (x : Float32) : UInt32 :=
  match magnitude? x with
  | some q => if isNegative x then 0 else UInt32.ofNat (min (nearestAway q).toNat 4294967295)
  | none => if x.isNaN || isNegative x then 0 else 4294967295

end Single

end Brewhouse.Exact
