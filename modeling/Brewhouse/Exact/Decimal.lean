import Brewhouse.Exact.Binary

/-!
Decimal numerals, read and written. A numeral stands for an exact rational number; reading it in double
precision is one rounding of that number, and a single-precision value is a second rounding of the first.
A number is written with two decimal places, or with as few digits as read back as the same number.
-/

namespace Brewhouse.Exact

/-! ### Reading -/

/-- The numeral `± digits * 10 ^ exponent`. The sign is kept apart, for the sake of a negative
zero. -/
structure Decimal where
  negative : Bool
  digits : Nat
  exponent : Int
  deriving DecidableEq, Repr

def natOfDigits (digits : List Char) : Nat :=
  digits.foldl (fun n c => 10 * n + (c.toNat - 48)) 0

namespace Decimal

/-- Reads `[-+]?[0-9]+(\.[0-9]*)?`; the value of any other text is of no meaning. -/
def ofChars (text : List Char) : Decimal :=
  let unsigned := if text.head? = some '-' ∨ text.head? = some '+' then text.drop 1 else text
  let whole := unsigned.takeWhile Char.isDigit
  let fraction := (unsigned.drop (whole.length + 1)).takeWhile Char.isDigit
  { negative := text.head? = some '-'
    digits := natOfDigits (whole ++ fraction)
    exponent := -(fraction.length : Int) }

def magnitude (d : Decimal) : Rat :=
  (d.digits : Rat) * (10 : Rat) ^ d.exponent

def value (d : Decimal) : Rat :=
  if d.negative then -d.magnitude else d.magnitude

/-- The absolute value in double precision; `none` when it is too large for a finite one. -/
def double? (d : Decimal) : Option Rat :=
  Format.double.roundMagnitude d.magnitude

/-- The value in single precision, by way of double precision. -/
def single (d : Decimal) : Float32 :=
  match d.double? with
  | some q => Single.ofMagnitude d.negative q
  | none => Single.infinity d.negative

end Decimal

/-! ### Two decimal places

The exact binary value is rounded to hundredths, ties to even, and the sign of the number is written even
when only zeros remain. -/

namespace Hundredths

def twoDigits (n : Nat) : String :=
  if n < 10 then "0" ++ toString n else toString n

/-- The text of a finite magnitude in the pieces in which it is written: whole part, point and
hundredths, or below one the leading `0.`, the zeros after it and what is left. -/
def magnitudePieces (q : Rat) : List String :=
  let hundredths := (nearestEven (q * 100)).toNat
  let whole := hundredths / 100
  let rest := hundredths % 100
  if 0 < whole then [toString whole, ".", twoDigits rest]
  else if rest = 0 then ["0.", "00"]
  else if rest < 10 then ["0.", "0", toString rest]
  else ["0.", toString rest]

def pieces (x : Float32) : List String :=
  if x.isNaN then ["NaN"]
  else
    let sign := if Single.isNegative x then ["-"] else []
    match Single.magnitude? x with
    | some q => sign ++ magnitudePieces q
    | none => sign ++ ["inf"]

def text (x : Float32) : String :=
  String.join (pieces x)

/-- The text of a number with spaces in front up to a width. -/
def padded (width : Nat) (x : Float32) : String :=
  let body := text x
  String.ofList (List.replicate (width - body.length) ' ') ++ body

end Hundredths

/-! ### The shortest text

Of the decimals with the fewest digits the one nearest to the number is taken, and the upper one on a
tie. -/

namespace Shortest

/-- A positive decimal `digits * 10 ^ exponent`. -/
structure Digits where
  digits : Nat
  exponent : Int
  deriving DecidableEq, Repr

namespace Digits

def value (d : Digits) : Rat :=
  (d.digits : Rat) * (10 : Rat) ^ d.exponent

/-- The same number with at most `fuel` trailing zeros moved into the exponent. -/
def strip : Nat → Digits → Digits
  | 0, d => d
  | fuel + 1, d =>
    if d.digits ≠ 0 ∧ d.digits % 10 = 0 then strip fuel ⟨d.digits / 10, d.exponent + 1⟩ else d

end Digits

/-- The exponent of the largest power of ten that is not above a positive `q`. -/
def decade (q : Rat) : Int :=
  if 1 ≤ q then ((toString q.floor.toNat).length : Int) - 1
  else
    let parts := q⁻¹.ceil.toNat
    if parts ≤ 1 then 0 else -((toString (parts - 1)).length : Int)

/-- The decimal with `count` digits that is nearest to `q` among those that read back, if there is
one: only the two neighbours of `q` on the grid can be. -/
def withDigits? (q : Rat) (readsBack : Rat → Bool) (count : Nat) : Option Digits :=
  let exponent := decade q + 1 - count
  let below : Digits := ⟨(q / (10 : Rat) ^ exponent).floor.toNat, exponent⟩
  let above : Digits := ⟨below.digits + 1, exponent⟩
  if readsBack below.value then
    if readsBack above.value ∧ above.value - q ≤ q - below.value then some above else some below
  else if readsBack above.value then some above
  else none

/-- The first hit among the grids with `count`, `count + 1`, … digits. -/
def search (q : Rat) (readsBack : Rat → Bool) : Nat → Nat → Option Digits
  | _, 0 => none
  | count, fuel + 1 =>
    match withDigits? q readsBack count with
    | some d => some (d.strip count)
    | none => search q readsBack (count + 1) fuel

/-- The shortest decimal for a positive finite `x` of magnitude `q`; nine digits always suffice. -/
def digits? (q : Rat) : Option Digits :=
  search q (fun r => (Single.ofMagnitude false r).toBits == (Single.ofMagnitude false q).toBits) 1 9

def zeros (count : Nat) : String :=
  String.ofList (List.replicate count '0')

/-- Positional notation, with at least one place after the point. -/
def positional (d : Digits) : String :=
  let body := (toString d.digits).toList
  if 0 ≤ d.exponent then String.ofList body ++ zeros d.exponent.toNat ++ ".0"
  else
    let places := (-d.exponent).toNat
    if places < body.length then
      String.ofList (body.take (body.length - places)) ++ "." ++
        String.ofList (body.drop (body.length - places))
    else "0." ++ zeros (places - body.length) ++ String.ofList body

/-- One digit before the point, the others after it, and the power of ten. -/
def scientific (d : Digits) : String :=
  let body := (toString d.digits).toList
  let power := d.exponent + body.length - 1
  let fraction := if body.length ≤ 1 then "" else "." ++ String.ofList (body.drop 1)
  String.ofList (body.take 1) ++ fraction ++ "e" ++ toString power

def text (x : Float32) : String :=
  if x.isNaN then "NaN"
  else
    let sign := if Single.isNegative x then "-" else ""
    match Single.magnitude? x with
    | none => sign ++ "inf"
    | some q =>
      if q = 0 then sign ++ "0.0"
      else
        match digits? q with
        | none => sign ++ "0.0"
        | some d =>
          let size := Single.ofMagnitude false q
          let small := size < Float32.ofBits 0x38d1b717
          let large := Float32.ofBits 0x5a0e1bca ≤ size
          sign ++ (if small || large then scientific d else positional d)

end Shortest

end Brewhouse.Exact
