import Brewhouse.Recipe.Compile
import Brewhouse.Upload.Program

/-!
From a recipe to the program that can be uploaded for it. An upload carries one phase, the mash
water and a list of holds. Up to the first hold a recipe may set the phase once, note the volume and
pause; after it only holds may follow.
-/

namespace Brewhouse

namespace Upload

/-- What has been gathered of a program; the phase comes with a statement of the recipe. -/
structure Draft where
  phase : Option Phase
  mashWater : Millilitres
  setpoints : List Setpoint
  deriving DecidableEq

namespace Draft

def empty : Draft :=
  ⟨none, 0, []⟩

/-- Takes a statement in, if an upload can carry it at this point. -/
def take? (d : Draft) : Statement → Option Draft
  | .mash =>
    if d.setpoints = [] ∧ d.phase = none then some { d with phase := some .mashing } else none
  | .sparge =>
    if d.setpoints = [] ∧ d.phase = none then some { d with phase := some .sparging } else none
  | .mashWater volume =>
    if d.setpoints = [] then some { d with mashWater := volume.getD 0 } else none
  | .pause => if d.setpoints = [] then some d else none
  | .hold (some (celsius, duration)) =>
    some { d with setpoints := d.setpoints ++ [.ofCelsius celsius duration] }
  | .hold none => some d
  | .initialise | .heat _ | .unknown _ => none

def takeAll (d : Draft) : Nat → List Statement → Except Recipe.RecipeFault Draft
  | _, [] => .ok d
  | place, statement :: rest =>
    match d.take? statement with
    | none => .error (.notTransmittable place statement.command)
    | some d => d.takeAll (place + 1) rest

end Draft

def programOf (statements : List Statement) : Except Recipe.RecipeFault Program := do
  let draft ← Draft.empty.takeAll 1 statements
  match draft.phase with
  | none => throw .missingPhase
  | some phase => pure ⟨phase, draft.mashWater, draft.setpoints⟩

end Upload

/-- The program that can be uploaded for a recipe. -/
def Recipe.program (r : Recipe) : Except Recipe.RecipeFault Upload.Program :=
  Upload.programOf r.statements

end Brewhouse
