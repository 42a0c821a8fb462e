import Brewhouse.Upload.Loader

/-!
The loader laid out in registers. The script is put together as its fields come in, the stage only tells
which field is awaited, and the temperature of a setpoint waits in a register of its own until its
duration is there. A reset clears the stage, the field and the script; the temperature stays.
-/

namespace Brewhouse.Upload

inductive Awaited where
  | opening
  | phase
  | mashWater
  | count
  /-- The temperature of the first of `remaining` setpoints. -/
  | temperature (remaining : UInt32)
  | duration (remaining : UInt32)
  | ending
  deriving DecidableEq

def Awaited.fieldSize : Awaited → Nat
  | .opening | .phase | .ending => 3
  | _ => 4

/-- What is awaited with so many setpoints to come. -/
def Awaited.ofRemaining (remaining : UInt32) : Awaited :=
  if remaining = 0 then .ending else .temperature remaining

/-- The registers of a loader between two bytes. -/
structure Registers where
  limits : Limits
  awaited : Awaited
  /-- The bytes of the awaited field; there is room for four. -/
  field : List UInt8
  /-- The script as far as it has been received. -/
  pending : Script
  /-- The temperature received last. -/
  temperature : Celsius

namespace Registers

def fresh (limits : Limits) (model : ThermalModel) : Registers :=
  ⟨limits, .opening, [], Script.empty model, 0⟩

def reset (r : Registers) : Registers :=
  { r with awaited := .opening, field := [], pending := r.pending.reset }

def inProgress (r : Registers) : Bool :=
  r.awaited != .opening || !r.field.isEmpty

def push (r : Registers) (byte : UInt8) : Registers :=
  if r.field.length < 4 then { r with field := r.field ++ [byte] } else r

def tag (r : Registers) : List UInt8 :=
  r.field.take 3

/-- The number that the field begins with. -/
def word (r : Registers) : UInt32 :=
  Exact.Word.ofBytes (r.field.take 4)

/-- Takes the field in, which is complete. -/
def complete (r : Registers) : Except UploadFault (Registers × Progress) :=
  match r.awaited with
  | .opening =>
    if r.tag = openingTag.bytes then
      .ok ({ r with awaited := .phase, pending := r.pending.reset }, .accepted)
    else .error .expectedBegin
  | .phase =>
    match Loader.phaseOf? r.tag with
    | none => .error .unknownMode
    | some phase =>
      .ok ({ r with awaited := .mashWater, pending := { r.pending with phase } }, .accepted)
  | .mashWater =>
    .ok ({ r with awaited := .count, pending := { r.pending with mashWater := r.word } }, .accepted)
  | .count =>
    if Script.capacity < r.word.toNat then .error .tooManySetpoints
    else .ok ({ r with awaited := .ofRemaining r.word }, .accepted)
  | .temperature remaining =>
    if r.limits.contains (Float32.ofBits r.word) then
      .ok ({ r with awaited := .duration remaining, temperature := Float32.ofBits r.word }, .accepted)
    else .error .temperatureOutOfRange
  | .duration remaining =>
    let pending := r.pending.add (.hold (some (r.temperature, r.word)))
    .ok ({ r with awaited := .ofRemaining (remaining - 1), pending }, .accepted)
  | .ending =>
    if r.tag = Tag.ending.bytes then
      .ok ({ r with awaited := .opening, pending := .empty r.pending.model }, .done r.pending)
    else .error .expectedEnd

/-- Takes one byte in, and tells what comes of the field if it completes one. -/
def feedByte (r : Registers) (byte : UInt8) : Registers × Option Progress :=
  let r := r.push byte
  if r.field.length < r.awaited.fieldSize then (r, none)
  else
    match r.complete with
    | .ok (r, progress) => ({ r with field := [] }, some progress)
    | .error fault => ({ r.reset with field := [] }, some (.refused fault))

/-- Takes a chunk of bytes in, and tells what comes of each field. What follows a refused field in the
chunk is dropped. -/
def feed (r : Registers) : List UInt8 → Registers × List Progress
  | [] => (r, [])
  | byte :: rest =>
    match r.feedByte byte with
    | (r, none) => r.feed rest
    | (r, some (.refused fault)) => (r, [.refused fault])
    | (r, some progress) =>
      let (r, further) := r.feed rest
      (r, progress :: further)

end Registers

end Brewhouse.Upload
