import Brewhouse.Upload.Registers

/-!
The loader with its operations checked. Not all that `Registers` does is defined everywhere: a field has
room for four bytes, a tag or a number can only be read from a field that is long enough, nothing can be
counted down from zero, and a script has room for so many statements. A checked loader stops where an
operation is asked for more than that.
-/

namespace Brewhouse.Upload

/-- Where a checked loader stops. -/
inductive Slip where
  /-- A byte comes to a field that is full. -/
  | fieldFull
  /-- A tag or a number is read from a field that is too short for it. -/
  | fieldShort
  /-- A hold comes to a script that is full. -/
  | scriptFull
  /-- A setpoint is counted down with none to come. -/
  | countSpent
  deriving DecidableEq

/-- Adds a statement at the end of a script that has room for it. -/
def addChecked (s : Script) (statement : Statement) : Except Slip Script :=
  if s.isFull then .error .scriptFull else .ok (s.add statement)

def countDown (remaining : UInt32) : Except Slip UInt32 :=
  if remaining = 0 then .error .countSpent else .ok (remaining - 1)

namespace Registers

def push? (r : Registers) (byte : UInt8) : Except Slip Registers :=
  if r.field.length < 4 then .ok { r with field := r.field ++ [byte] } else .error .fieldFull

/-- The first bytes of the field, if it has that many. -/
def first? (r : Registers) (count : Nat) : Except Slip (List UInt8) :=
  if count ≤ r.field.length then .ok (r.field.take count) else .error .fieldShort

def tag? (r : Registers) : Except Slip (List UInt8) :=
  r.first? 3

def word? (r : Registers) : Except Slip UInt32 := do
  return Exact.Word.ofBytes (← r.first? 4)

/-- Takes the field in, which is complete: the registers and what comes of the field, or why it is
refused. -/
def complete? (r : Registers) : Except Slip (Except UploadFault (Registers × Progress)) := do
  match r.awaited with
  | .opening =>
    let tag ← r.tag?
    return if tag = openingTag.bytes then
        .ok ({ r with awaited := .phase, pending := r.pending.reset }, .accepted)
      else .error .expectedBegin
  | .phase =>
    let tag ← r.tag?
    return match Loader.phaseOf? tag with
      | none => .error .unknownMode
      | some phase =>
        .ok ({ r with awaited := .mashWater, pending := { r.pending with phase } }, .accepted)
  | .mashWater =>
    let mashWater ← r.word?
    return .ok ({ r with awaited := .count, pending := { r.pending with mashWater } }, .accepted)
  | .count =>
    let count ← r.word?
    return if Script.capacity < count.toNat then .error .tooManySetpoints
      else .ok ({ r with awaited := .ofRemaining count }, .accepted)
  | .temperature remaining =>
    let temperature := Float32.ofBits (← r.word?)
    return if r.limits.contains temperature then
        .ok ({ r with awaited := .duration remaining, temperature }, .accepted)
      else .error .temperatureOutOfRange
  | .duration remaining =>
    let duration ← r.word?
    let pending ← addChecked r.pending (.hold (some (r.temperature, duration)))
    let remaining ← countDown remaining
    return .ok ({ r with awaited := .ofRemaining remaining, pending }, .accepted)
  | .ending =>
    let tag ← r.tag?
    return if tag = Tag.ending.bytes then
        .ok ({ r with awaited := .opening, pending := .empty r.pending.model }, .done r.pending)
      else .error .expectedEnd

/-- Takes one byte in, and tells what comes of the field if it completes one. -/
def feedByte? (r : Registers) (byte : UInt8) : Except Slip (Registers × Option Progress) := do
  let r ← r.push? byte
  if r.field.length < r.awaited.fieldSize then return (r, none)
  else
    match ← r.complete? with
    | .ok (r, progress) => return ({ r with field := [] }, some progress)
    | .error fault => return ({ r.reset with field := [] }, some (.refused fault))

end Registers

/-- What comes of a chunk whose first byte has been taken in. The rest is taken in after it, or dropped if
the byte completed a field that is refused. -/
def followUp {σ : Type} (feedRest : σ → σ × List Progress) :
    σ × Option Progress → σ × List Progress
  | (r, none) => feedRest r
  | (r, some (.refused fault)) => (r, [.refused fault])
  | (r, some progress) => ((feedRest r).1, progress :: (feedRest r).2)

def feedEach {σ : Type} (feedByte : σ → UInt8 → σ × Option Progress) :
    σ → List UInt8 → σ × List Progress
  | r, [] => (r, [])
  | r, byte :: rest => followUp (fun r => feedEach feedByte r rest) (feedByte r byte)

/-- A checked loader: its registers, or where it stopped. -/
abbrev Checked := Except Slip Registers

namespace Checked

def fresh (limits : Limits) (model : ThermalModel) : Checked :=
  .ok (.fresh limits model)

def reset (c : Checked) : Checked :=
  c.map Registers.reset

def inProgress : Checked → Bool
  | .ok r => r.inProgress
  | .error _ => false

/-- Takes one byte in. A loader that has stopped takes nothing in any more. -/
def feedByte : Checked → UInt8 → Checked × Option Progress
  | .ok r, byte =>
    match r.feedByte? byte with
    | .ok (r, progress) => (.ok r, progress)
    | .error slip => (.error slip, none)
  | .error slip, _ => (.error slip, none)

def feed (c : Checked) (bytes : List UInt8) : Checked × List Progress :=
  feedEach feedByte c bytes

end Checked

end Brewhouse.Upload
