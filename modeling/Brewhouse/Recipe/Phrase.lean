import Brewhouse.Equipment
import Brewhouse.Exact.Decimal
import Brewhouse.Recipe.Lexeme
import Brewhouse.Recipe.Scan

/-!
Phrases: a keyword with its operands. A recipe is a sequence of phrases, and each of them stands for
one statement or two, as a change of phase waits for the operator's consent.

```text
phrase      := initialise | mashing | sparging | pause
             | mash-volume volume | heat temperature | hold temperature for time
volume      := number (litres | millilitres)
temperature := number (celsius | fahrenheit)
time        := number (milliseconds | seconds | minutes | hours)
```
-/

namespace Brewhouse.Recipe

/-! ### Amounts

A number and a unit. The number is read in double precision and converted there. Volumes and times become
whole millilitres and milliseconds, halves away from zero; temperatures become degrees Celsius in single
precision. -/

open Exact

/-- Millilitres in a unit of volume. -/
def volumeFactor? : TokenKind → Option Nat
  | .litres => some 1000
  | .millilitres => some 1
  | _ => none

/-- Milliseconds in a unit of time. -/
def timeFactor? : TokenKind → Option Nat
  | .milliseconds => some 1
  | .seconds => some 1000
  | .minutes => some 60000
  | .hours => some 3600000
  | _ => none

/-- The nearest whole multiple of a unit's `factor`-th part, if it is a 32-bit word. A negative
amount that rounds to zero is one. -/
def wholeAmount? (number : Decimal) (factor : Nat) : Option UInt32 := do
  let magnitude ← number.double?
  let product ← Format.double.roundMagnitude (magnitude * factor)
  let whole := (nearestAway product).toNat
  if number.negative ∧ whole ≠ 0 then none
  else if whole ≤ 4294967295 then some (UInt32.ofNat whole)
  else none

def fahrenheitPerCelsius : Rat :=
  8106479329266893 / 4503599627370496

/-- A reading on the Fahrenheit scale in degrees Celsius: the difference and the quotient are each
rounded to double precision. -/
def celsiusOfFahrenheit? (fahrenheit : Rat) : Option Rat := do
  let difference ← Format.double.round (fahrenheit - 32)
  Format.double.round (difference / fahrenheitPerCelsius)

def temperature? (number : Decimal) : TokenKind → Option Celsius
  | .celsius => some number.single
  | .fahrenheit =>
    let signed := number.double?.map fun q => if number.negative then -q else q
    match signed.bind celsiusOfFahrenheit? with
    | some q =>
      some (if q < 0 then Single.ofMagnitude true (-q) else Single.ofMagnitude false q)
    | none => some (Single.infinity number.negative)
  | _ => none

/-! ### Phrases -/

/-- The complaint about a token that does not belong where it stands. -/
def Token.unexpected (t : Token) : RecipeFault :=
  .unexpectedToken t.line t.text

def next : List Token → Except RecipeFault Token
  | [] => .error .unexpectedEnd
  | token :: _ => .ok token

def expect (kind : TokenKind) (tokens : List Token) : Except RecipeFault Unit := do
  let token ← next tokens
  if token.kind = kind then pure () else throw token.unexpected

def number (tokens : List Token) : Except RecipeFault Token := do
  let token ← next tokens
  if token.kind = .integer ∨ token.kind = .decimal then pure token else throw token.unexpected

def amount (factor? : TokenKind → Option Nat) (tokens : List Token) :
    Except RecipeFault UInt32 := do
  let digits ← number tokens
  let unit ← next (tokens.drop 1)
  match factor? unit.kind with
  | none => throw unit.unexpected
  | some factor =>
    match wholeAmount? (Exact.Decimal.ofChars digits.text) factor with
    | none => throw (.valueOutOfRange digits.line digits.text)
    | some whole => pure whole

def temperature (tokens : List Token) : Except RecipeFault Celsius := do
  let digits ← number tokens
  let scale ← next (tokens.drop 1)
  match temperature? (Exact.Decimal.ofChars digits.text) scale.kind with
  | none => throw scale.unexpected
  | some celsius => pure celsius

/-- How many tokens the operands of a keyword take. -/
def operandCount : TokenKind → Nat
  | .mashVolume | .heat => 2
  | .hold => 5
  | _ => 0

/-- The statements that the phrase of a keyword stands for, given the tokens after it. -/
def expansion (keyword : Token) (operands : List Token) : Except RecipeFault (List Statement) :=
  match keyword.kind with
  | .initialise => pure [.initialise]
  | .mashing => pure [.mash, .pause]
  | .sparging => pure [.sparge, .pause]
  | .pause => pure [.pause]
  | .mashVolume => do
    let volume ← amount volumeFactor? operands
    pure [.mashWater (some volume)]
  | .heat => do
    let celsius ← temperature operands
    pure [.heat (some celsius)]
  | .hold => do
    let celsius ← temperature operands
    expect .duration (operands.drop 2)
    let time ← amount timeFactor? (operands.drop 3)
    pure [.hold (some (celsius, time))]
  | _ => throw keyword.unexpected

/-- The statements of a sequence of phrases, of which there may be `room`. -/
def parse (room : Nat) : List Token → Except RecipeFault (List Statement)
  | [] => pure []
  | keyword :: rest => do
    let expanded ← expansion keyword rest
    if room < expanded.length then throw (.tooManyStatements keyword.line)
    let further ← parse (room - expanded.length) (rest.drop (operandCount keyword.kind))
    pure (expanded ++ further)
termination_by tokens => tokens.length
decreasing_by
  simp only [List.length_drop, List.length_cons]
  omega

end Brewhouse.Recipe
