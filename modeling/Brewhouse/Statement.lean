import Brewhouse.Equipment

/-!
Script statements and the tags that name them. A statement is a command with the values the command takes. A
statement made from a bare tag has the tag's command and no values, so a command can stand without its
payload.
-/

namespace Brewhouse

/-! ### Tags

The three bytes that name a command on the wire, in telemetry and in error texts. -/

/-- Three bytes, of which any value is possible. -/
structure Tag where
  first : UInt8
  second : UInt8
  third : UInt8
  deriving DecidableEq, Repr

namespace Tag

/-- The tag of three ASCII characters. -/
def ofChars (a b c : Char) : Tag :=
  ⟨a.toUInt8, b.toUInt8, c.toUInt8⟩

def bytes (t : Tag) : List UInt8 :=
  [t.first, t.second, t.third]

/-- The tag that a field of three bytes holds. -/
def ofBytes? : List UInt8 → Option Tag
  | [a, b, c] => some ⟨a, b, c⟩
  | _ => none

def hexDigit (n : UInt8) : Char :=
  Char.ofNat (if n < 10 then 48 + n.toNat else 87 + n.toNat)

/-- A visible ASCII character stands for itself; any other byte, a space too, is a backslash, an `x`
and two hexadecimal digits. -/
def bytePieces (b : UInt8) : List String :=
  if 0x21 ≤ b && b ≤ 0x7e then [String.singleton (Char.ofNat b.toNat)]
  else ["\\x", String.ofList [hexDigit (b / 16), hexDigit (b % 16)]]

/-- The text of a tag in the pieces in which it is written. -/
def pieces (t : Tag) : List String :=
  t.bytes.flatMap bytePieces

def text (t : Tag) : String :=
  String.join t.pieces

/-- The tag column once the cursor is past the last statement; on the wire, the end of an upload. -/
def ending : Tag := ofChars 'E' 'N' 'D'

/-- The tag column after a fatal statement. -/
def failed : Tag := ofChars 'E' 'R' 'R'

end Tag

/-! ### Statements -/

inductive Command where
  /-- Back to the initialising phase. -/
  | initialise
  | mash
  | sparge
  /-- Suspend until the operator resumes. -/
  | pause
  /-- Note the volume of the mash water. -/
  | mashWater
  /-- Heat until the target is reached. -/
  | heat
  /-- Hold the target for a time. -/
  | hold
  /-- A tag outside the vocabulary, which ends the script when it is reached. -/
  | unknown (tag : Tag)
  deriving DecidableEq, Repr

namespace Command

def tag : Command → Tag
  | .initialise => .ofChars 'I' 'N' 'I'
  | .mash => .ofChars 'M' 'S' 'H'
  | .sparge => .ofChars 'S' 'P' 'G'
  | .pause => .ofChars 'P' 'A' 'U'
  | .mashWater => .ofChars 'M' 'W' 'V'
  | .heat => .ofChars 'H' 'E' 'A'
  | .hold => .ofChars 'H' 'L' 'D'
  | .unknown tag => tag

/-- The commands that have a tag of their own. -/
def vocabulary : List Command :=
  [.initialise, .mash, .sparge, .pause, .mashWater, .heat, .hold]

/-- The command of a tag: the one of the vocabulary that has it, or else an unknown one. -/
def ofTag (t : Tag) : Command :=
  (vocabulary.find? fun c => c.tag == t).getD (.unknown t)

def isKnown : Command → Bool
  | .unknown _ => false
  | _ => true

end Command

inductive Statement where
  | initialise
  | mash
  | sparge
  | pause
  | mashWater (volume : Option Millilitres)
  | heat (setpoint : Option Celsius)
  | hold (payload : Option (Celsius × Milliseconds))
  | unknown (tag : Tag)
  deriving DecidableEq

namespace Statement

def command : Statement → Command
  | .initialise => .initialise
  | .mash => .mash
  | .sparge => .sparge
  | .pause => .pause
  | .mashWater _ => .mashWater
  | .heat _ => .heat
  | .hold _ => .hold
  | .unknown tag => .unknown tag

def tag (s : Statement) : Tag :=
  s.command.tag

/-- The statement of a bare tag, without values. -/
def ofTag (t : Tag) : Statement :=
  match Command.ofTag t with
  | .initialise => .initialise
  | .mash => .mash
  | .sparge => .sparge
  | .pause => .pause
  | .mashWater => .mashWater none
  | .heat => .heat none
  | .hold => .hold none
  | .unknown tag => .unknown tag

def setpoint? : Statement → Option Celsius
  | .heat setpoint => setpoint
  | .hold payload => payload.map (·.1)
  | _ => none

def duration? : Statement → Option Milliseconds
  | .hold payload => payload.map (·.2)
  | _ => none

def volume? : Statement → Option Millilitres
  | .mashWater volume => volume
  | _ => none

/-- Whether a statement keeps the script waiting: the others are carried out and left behind in
the same step. -/
def isTimed : Statement → Bool
  | .heat _ | .hold _ => true
  | _ => false

/-- A setpoint that is absent counts as zero. -/
def setpoint (s : Statement) : Celsius :=
  s.setpoint?.getD 0

/-- A duration that is absent counts as zero. -/
def duration (s : Statement) : Milliseconds :=
  s.duration?.getD 0

end Statement

end Brewhouse
