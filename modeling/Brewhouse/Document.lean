import Brewhouse.Exact.Decimal

/-!
JSON documents and how they are read. Numbers are kept exactly, and a number keeps whether it was
written as an integer.
-/

namespace Brewhouse

inductive Document where
  | null
  | boolean (value : Bool)
  | number (value : Exact.Decimal) (integer : Bool)
  | text (value : String)
  | array (items : List Document)
  | object (fields : List (String × Document))

namespace Document

/-- The last field of an object with the given name. -/
def field? (fields : List (String × Document)) (name : String) : Option Document :=
  (fields.reverse.find? fun f => f.1 == name).map (·.2)

/-! ### Texts -/

def hexDigit? (c : Char) : Option Nat :=
  if c.isDigit then some (c.toNat - 48)
  else if 'a' ≤ c && c ≤ 'f' then some (c.toNat - 87)
  else if 'A' ≤ c && c ≤ 'F' then some (c.toNat - 55)
  else none

def hexNumber? (digits : List Char) : Option Nat :=
  digits.foldl (fun n c => do pure (16 * (← n) + (← hexDigit? c))) (some 0)

/-- The character that a backslash and another character stand for. -/
def escaped? : Char → Option Char
  | 'n' => some '\n'
  | 't' => some '\t'
  | 'r' => some '\r'
  | 'b' => some '\x08'
  | 'f' => some '\x0c'
  | '"' => some '"'
  | '\\' => some '\\'
  | '/' => some '/'
  | _ => none

/-- The code points and halves of code points up to the closing quote, and what follows it. -/
def readUnits : List Char → Option (List Nat × List Char)
  | '"' :: rest => some ([], rest)
  | '\\' :: 'u' :: a :: b :: c :: d :: rest => do
    let unit ← hexNumber? [a, b, c, d]
    let (units, rest) ← readUnits rest
    pure (unit :: units, rest)
  | '\\' :: c :: rest => do
    let char ← escaped? c
    let (units, rest) ← readUnits rest
    pure (char.toNat :: units, rest)
  | c :: rest => do
    let (units, rest) ← readUnits rest
    pure (c.toNat :: units, rest)
  | [] => none

/-- The characters of code points, two halves of one joined. A half that stands alone is none. -/
def joinHalves : List Nat → Option (List Char)
  | [] => some []
  | high :: rest =>
    if 0xd800 ≤ high ∧ high ≤ 0xdbff then
      match rest with
      | [] => none
      | low :: rest =>
        if 0xdc00 ≤ low ∧ low ≤ 0xdfff then
          (joinHalves rest).map
            (Char.ofNat (0x10000 + (high - 0xd800) * 0x400 + (low - 0xdc00)) :: ·)
        else none
    else if 0xdc00 ≤ high ∧ high ≤ 0xdfff then none
    else (joinHalves rest).map (Char.ofNat high :: ·)

def readText (source : List Char) : Option (String × List Char) := do
  let (units, rest) ← readUnits source
  let chars ← joinHalves units
  pure (String.ofList chars, rest)

/-! ### Numbers -/

/-- The digits behind a point, if there are any, and the rest. -/
def readFraction : List Char → Option (List Char) × List Char
  | '.' :: rest =>
    let digits := rest.takeWhile Char.isDigit
    if digits.isEmpty then (none, '.' :: rest) else (some digits, rest.drop digits.length)
  | source => (none, source)

/-- A power of ten, if there is one, and the rest. -/
def readPower (source : List Char) : Option Int × List Char :=
  match source with
  | e :: rest =>
    let digitsFrom (rest : List Char) (sign : Int) : Option Int × List Char :=
      let digits := rest.takeWhile Char.isDigit
      if digits.isEmpty then (none, source)
      else (some (sign * (Exact.natOfDigits digits : Int)), rest.drop digits.length)
    if e == 'e' || e == 'E' then
      match rest with
      | '-' :: rest => digitsFrom rest (-1)
      | '+' :: rest => digitsFrom rest 1
      | rest => digitsFrom rest 1
    else (none, source)
  | [] => (none, [])

def readMagnitude (negative : Bool) (source : List Char) : Option (Document × List Char) :=
  let whole := source.takeWhile Char.isDigit
  if whole.isEmpty then none
  else
    let (fraction, rest) := readFraction (source.drop whole.length)
    let (power, rest) := readPower rest
    let places := fraction.getD []
    some
      (.number
          ⟨negative, Exact.natOfDigits (whole ++ places), power.getD 0 - (places.length : Int)⟩
          (fraction.isNone && power.isNone),
        rest)

/-! ### Documents -/

/-- The source without the blanks at its beginning. -/
def skipBlanks (source : List Char) : List Char :=
  source.dropWhile fun c => c == ' ' || c == '\t' || c == '\n' || c == '\r'

mutual

/-- A document at the beginning of the source, and what follows it. Every nested part takes at least
one character, so the length of the source is fuel enough. -/
def readValue : Nat → List Char → Option (Document × List Char)
  | 0, _ => none
  | fuel + 1, source =>
    match skipBlanks source with
    | '"' :: rest => (readText rest).map fun (value, rest) => (.text value, rest)
    | '[' :: rest =>
      match skipBlanks rest with
      | ']' :: rest => some (.array [], rest)
      | rest => (readItems fuel rest).map fun (items, rest) => (.array items, rest)
    | '\x7b' :: rest =>
      match skipBlanks rest with
      | '\x7d' :: rest => some (.object [], rest)
      | rest => (readFields fuel rest).map fun (fields, rest) => (.object fields, rest)
    | 't' :: 'r' :: 'u' :: 'e' :: rest => some (.boolean true, rest)
    | 'f' :: 'a' :: 'l' :: 's' :: 'e' :: rest => some (.boolean false, rest)
    | 'n' :: 'u' :: 'l' :: 'l' :: rest => some (.null, rest)
    | '-' :: rest => readMagnitude true rest
    | rest => readMagnitude false rest

def readItems : Nat → List Char → Option (List Document × List Char)
  | 0, _ => none
  | fuel + 1, source => do
    let (item, rest) ← readValue fuel source
    match skipBlanks rest with
    | ',' :: rest =>
      let (items, rest) ← readItems fuel rest
      pure (item :: items, rest)
    | ']' :: rest => pure ([item], rest)
    | _ => none

/-- The fields of an object up to its end. -/
def readFields : Nat → List Char → Option (List (String × Document) × List Char)
  | 0, _ => none
  | fuel + 1, source => do
    let '"' :: rest := skipBlanks source | none
    let (name, rest) ← readText rest
    let ':' :: rest := skipBlanks rest | none
    let (value, rest) ← readValue fuel rest
    match skipBlanks rest with
    | ',' :: rest =>
      let (fields, rest) ← readFields fuel rest
      pure ((name, value) :: fields, rest)
    | '\x7d' :: rest => pure ([(name, value)], rest)
    | _ => none

end

/-- The document that a text consists of. -/
def ofText? (source : String) : Option Document := do
  let chars := source.toList
  let (document, rest) ← readValue (chars.length + 1) chars
  if (skipBlanks rest).isEmpty then some document else none

end Document

end Brewhouse
