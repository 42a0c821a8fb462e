import Brewhouse.Upload.Program

/-!
Receiving a program. The loader gathers bytes until a field is complete, so that a read may bring a
part of a field or several of them. A field that is refused ends the upload, and nothing of it is
kept.
-/

namespace Brewhouse.Upload

/-- The setpoints that are accepted, both ends included. -/
structure Limits where
  lowest : Celsius
  highest : Celsius
  deriving DecidableEq

def Limits.contains (l : Limits) (t : Celsius) : Bool :=
  l.lowest ≤ t && t ≤ l.highest

/-- The field that is awaited, with what the fields before it have brought. -/
inductive Stage where
  | opening
  | phase
  | mashWater (phase : Phase)
  | count (phase : Phase) (mashWater : Millilitres)
  /-- The temperature of the first of `remaining` setpoints. -/
  | temperature (received : Program) (remaining : Nat)
  /-- The duration that belongs to the temperature received last. -/
  | duration (received : Program) (remaining : Nat) (pattern : UInt32)
  | ending (received : Program)
  deriving DecidableEq

def Stage.fieldSize : Stage → Nat
  | .opening | .phase | .ending _ => 3
  | _ => 4

/-- What comes of a complete field. -/
inductive Progress where
  /-- The field is accepted and the next one may be sent. -/
  | accepted
  /-- The last field is accepted; the script is ready to run. -/
  | done (script : Script)
  | refused (fault : UploadFault)
  deriving DecidableEq

/-- The notice that a field leaves in the journal. -/
def Progress.notice? : Progress → Option Notice
  | .accepted => none
  | .done script => some (.uploadReceived script.statements.length script.phase)
  | .refused fault => some (.uploadRefused fault)

structure Loader where
  limits : Limits
  model : ThermalModel
  stage : Stage
  /-- The bytes of the awaited field that have arrived. -/
  field : List UInt8
  deriving DecidableEq

namespace Loader

def fresh (limits : Limits) (model : ThermalModel) : Loader :=
  ⟨limits, model, .opening, []⟩

/-- Drops what has been received and awaits a new upload. -/
def reset (l : Loader) : Loader :=
  { l with stage := .opening, field := [] }

def inProgress (l : Loader) : Bool :=
  l.stage != .opening || !l.field.isEmpty

/-- The phase that a tag names on the wire; an upload cannot ask for the initialising phase. -/
def phaseOf? (field : List UInt8) : Option Phase :=
  [Phase.mashing, .sparging].find? fun phase => (phaseTag phase).bytes == field

/-- The stage after the first setpoints, with the given number of them to come. -/
def setpointStage (received : Program) : Nat → Stage
  | 0 => .ending received
  | remaining + 1 => .temperature received (remaining + 1)

/-- Takes a complete field in: the stage after it, or the script if it was the last. -/
def complete (l : Loader) (field : List UInt8) : Except UploadFault (Stage ⊕ Script) :=
  match l.stage with
  | .opening =>
    if field = openingTag.bytes then .ok (.inl .phase) else .error .expectedBegin
  | .phase =>
    match phaseOf? field with
    | none => .error .unknownMode
    | some phase => .ok (.inl (.mashWater phase))
  | .mashWater phase => .ok (.inl (.count phase (Exact.Word.ofBytes field)))
  | .count phase mashWater =>
    let count := (Exact.Word.ofBytes field).toNat
    if Script.capacity < count then .error .tooManySetpoints
    else .ok (.inl (setpointStage ⟨phase, mashWater, []⟩ count))
  | .temperature received remaining =>
    let pattern := Exact.Word.ofBytes field
    if l.limits.contains (Float32.ofBits pattern) then
      .ok (.inl (.duration received remaining pattern))
    else .error .temperatureOutOfRange
  | .duration received remaining pattern =>
    let setpoint : Setpoint := ⟨pattern, Exact.Word.ofBytes field⟩
    let received := { received with setpoints := received.setpoints ++ [setpoint] }
    .ok (.inl (setpointStage received (remaining - 1)))
  | .ending received =>
    if field = Tag.ending.bytes then .ok (.inr (received.script l.model))
    else .error .expectedEnd

/-- Takes one byte in, and tells what comes of the field if it completes one. -/
def feedByte (l : Loader) (byte : UInt8) : Loader × Option Progress :=
  let field := l.field ++ [byte]
  if field.length < l.stage.fieldSize then ({ l with field := field }, none)
  else
    match l.complete field with
    | .ok (.inl stage) => ({ l with stage := stage, field := [] }, some .accepted)
    | .ok (.inr script) => (l.reset, some (.done script))
    | .error fault => (l.reset, some (.refused fault))

/-- Takes a chunk of bytes in, and tells what comes of each field. What follows a refused field in
the chunk is dropped, as the sender starts over. -/
def feed (l : Loader) : List UInt8 → Loader × List Progress
  | [] => (l, [])
  | byte :: rest =>
    match l.feedByte byte with
    | (l, none) => l.feed rest
    | (l, some (.refused fault)) => (l, [.refused fault])
    | (l, some progress) =>
      let (l, further) := l.feed rest
      (l, progress :: further)

end Loader

end Brewhouse.Upload
