import Brewhouse.Exact.Decimal
import Brewhouse.Recipe.Phrase
import Brewhouse.Recipe.Scan
import Brewhouse.Script

/-!
Compiled recipes: the statements of a recipe, the script that runs them and a listing for review.
-/

namespace Brewhouse

structure Recipe where
  statements : List Statement
  deriving DecidableEq

namespace Recipe

def compile (source : String) : Except RecipeFault Recipe := do
  let tokens ← tokens source
  let statements ← parse Script.capacity tokens
  pure ⟨statements⟩

/-- The script that carries a recipe out. -/
def script (r : Recipe) (model : ThermalModel) : Script :=
  Script.ofStatements model r.statements

def minutes (duration : Milliseconds) : Float32 :=
  duration.toFloat32 / 60000

def entry : Statement → String
  | .initialise => "INITIALIZE"
  | .mash => "MASHING"
  | .sparge => "SPARGING"
  | .pause => "PAUSE"
  | .mashWater volume => "MASH WATER " ++ toString (volume.getD 0).toNat ++ " mL"
  | .heat setpoint => "HEAT to " ++ Exact.Hundredths.padded 5 (setpoint.getD 0) ++ " °C"
  | .hold payload =>
    "HOLD " ++ Exact.Hundredths.padded 5 ((payload.map (·.1)).getD 0) ++ " °C for " ++
      Exact.Hundredths.padded 5 (minutes ((payload.map (·.2)).getD 0)) ++ " minutes"
  | .unknown tag => "?" ++ tag.text

/-- The listing: one statement a line. -/
def listing (r : Recipe) : String :=
  String.join (r.statements.map fun s => entry s ++ "\n")

end Recipe

end Brewhouse
