import Brewhouse.Equipment
import Brewhouse.Exact.Binary
import Brewhouse.Journal
import Brewhouse.Statement

/-!
Scripts and how they are carried out. A script is a list of statements with a cursor. In a step the
cursor crosses statements until it comes to a timed one, `heat` or `hold`, that keeps it waiting;
at most one timed statement is tried per step, so elapsed time is charged once, and a second one
only has its target shown.
-/

namespace Brewhouse

structure Script where
  statements : List Statement
  /-- How many statements lie behind. -/
  cursor : Nat
  /-- The time spent on the `hold` under the cursor. -/
  elapsedInInterval : Milliseconds
  phase : Phase
  mashWater : Millilitres
  /-- The target worked out last. -/
  target : Option Celsius
  /-- Set when the hot liquor tank first reaches its ramp-up target, and kept. -/
  rampedUp : Bool
  /-- The tag that ended the script early. -/
  failure : Option Tag
  model : ThermalModel
  deriving DecidableEq

/-- What one step works with: the time since the last step and both temperatures. -/
structure Sample where
  elapsed : Milliseconds
  hlt : Celsius
  mash : Celsius
  deriving DecidableEq

/-- What a script does beside changing its state: it waits for the operator or leaves a notice. -/
inductive Signal where
  | pause
  | note (notice : Notice)
  deriving DecidableEq

namespace Script

/-- The most statements a script can have. -/
def capacity : Nat := 32

def empty (model : ThermalModel) : Script where
  statements := []
  cursor := 0
  elapsedInInterval := 0
  phase := .initialising
  mashWater := 0
  target := none
  rampedUp := false
  failure := none
  model := model

def isFull (s : Script) : Bool :=
  s.statements.length == capacity

/-- Adds a statement at the end; a full script stays as it is. -/
def add (s : Script) (statement : Statement) : Script :=
  if s.statements.length < capacity then { s with statements := s.statements ++ [statement] } else s

/-- The script of a list of statements, as far as it has room for them. -/
def ofStatements (model : ThermalModel) (statements : List Statement) : Script :=
  statements.foldl add (empty model)

/-- Back to no statements; only the thermal model is kept. -/
def reset (s : Script) : Script :=
  empty s.model

def active? (s : Script) : Option Statement :=
  s.statements[s.cursor]?

def completed (s : Script) : Bool :=
  s.statements.length ≤ s.cursor

def setpoint? (s : Script) : Option Celsius :=
  s.active?.bind Statement.setpoint?

/-- The duration of the active `hold`, and zero otherwise. -/
def intervalDuration (s : Script) : Milliseconds :=
  (s.active?.bind Statement.duration?).getD 0

/-! ### Targets -/

/-- Whether targets make up for the heat that the mash takes. -/
def compensates (s : Script) : Bool :=
  s.phase == .mashing && 0 < s.mashWater

/-- The target for a setpoint. -/
def aim (s : Script) (setpoint : Celsius) (x : Sample) : Celsius :=
  if s.compensates then
    if s.rampedUp then s.model.offsetTarget setpoint s.mashWater x.mash
    else s.model.rampUpTarget setpoint s.mashWater x.hlt
  else s.model.cap setpoint

/-- Whether the hot liquor tank reaches the ramp-up target here for the first time. -/
def rampsUp (s : Script) (setpoint : Celsius) (x : Sample) : Bool :=
  s.compensates && !s.rampedUp && s.aim setpoint x ≤ x.hlt

/-- The script with its target worked out for a setpoint. -/
def retarget (s : Script) (setpoint : Celsius) (x : Sample) : Script :=
  { s with target := some (s.aim setpoint x), rampedUp := s.rampedUp || s.rampsUp setpoint x }

def retargetSignals (s : Script) (setpoint : Celsius) (x : Sample) : List Signal :=
  if s.rampsUp setpoint x then [.note (.rampUpComplete x.hlt (s.aim setpoint x))] else []

/-! ### Steps -/

/-- What comes of the statement under the cursor. -/
inductive Move where
  /-- The statement is done; `timed` tells whether a timed one was tried in this step. -/
  | onward (script : Script) (timed : Bool) (signals : List Signal)
  /-- The step ends in front of the statement. -/
  | stay (script : Script) (signals : List Signal)
  /-- The statement ends the script. -/
  | fail (script : Script) (tag : Tag)

/-- Carries out one statement. -/
def carryOut (x : Sample) (timed : Bool) (s : Script) : Statement → Move
  | .initialise => .onward { s with phase := .initialising } timed []
  | .mash => .onward { s with phase := .mashing } timed []
  | .sparge => .onward { s with phase := .sparging } timed []
  | .mashWater volume => .onward { s with mashWater := volume.getD 0 } timed []
  | .pause =>
    .onward s timed [.note (.scriptPaused s.cursor), .pause, .note .scriptResumed]
  | .heat setpoint =>
    let goal := setpoint.getD 0
    let target := s.aim goal x
    let signals := s.retargetSignals goal x
    let s := s.retarget goal x
    if timed || x.hlt < target then .stay s signals
    else .onward s true (signals ++ [.note (.targetReached x.hlt target)])
  | .hold payload =>
    let goal := (payload.map (·.1)).getD 0
    let duration := (payload.map (·.2)).getD 0
    let signals := s.retargetSignals goal x
    let s := s.retarget goal x
    if timed then .stay s signals
    else
      let elapsed := Exact.Word.saturatingAdd s.elapsedInInterval x.elapsed
      if elapsed < duration then .stay { s with elapsedInInterval := elapsed } signals
      else .onward { s with elapsedInInterval := 0 } true signals
  | .unknown tag =>
    .fail { s with failure := some tag, cursor := s.statements.length } tag

def advance (s : Script) : Script :=
  { s with cursor := s.cursor + 1 }

def completionSignals (s : Script) : List Signal :=
  if s.completed then [.note .scriptCompleted] else []

/-- The outcome of a step: the script after it, the fault that ended it if there is one, and the
signals in order. -/
structure Step where
  script : Script
  fault : Option ScriptFault
  signals : List Signal

/-- Carries out the given statements, those from the cursor on, until one keeps the script. -/
def cascade (x : Sample) : List Statement → Bool → Script → Step
  | [], _, s => ⟨s, none, []⟩
  | statement :: rest, timed, s =>
    match carryOut x timed s statement with
    | .onward s timed signals =>
      let onward := cascade x rest timed s.advance
      { onward with signals := signals ++ s.advance.completionSignals ++ onward.signals }
    | .stay s signals => ⟨s, none, signals⟩
    | .fail s tag => ⟨s, some (.unknownCommand tag), [.note (.unknownCommand tag)]⟩

def step (s : Script) (x : Sample) : Step :=
  cascade x (s.statements.drop s.cursor) false s

end Script

end Brewhouse
