import Brewhouse.Recipe.Lexeme
import Brewhouse.Script
import Brewhouse.Text.Characters

/-!
From the text of a recipe to its tokens. Blanks separate tokens where they stand and are otherwise
dropped; the tokens and the blanks between them make up the whole text.
-/

namespace Brewhouse.Recipe

/-! ### Why a recipe is refused -/

/-- The causes, with the line they are found on. -/
inductive RecipeFault where
  /-- No token starts here; the text is the rest of the line. -/
  | unexpectedText (line : Nat) (text : List Char)
  | unexpectedToken (line : Nat) (text : List Char)
  | unexpectedEnd
  | valueOutOfRange (line : Nat) (text : List Char)
  /-- The statements no longer fit into a script. -/
  | tooManyStatements (line : Nat)
  /-- A statement that an upload cannot carry, by its place counted from one. -/
  | notTransmittable (place : Nat) (command : Command)
  /-- An upload needs a phase. -/
  | missingPhase
  deriving DecidableEq, Repr

namespace RecipeFault

def located (line : Nat) : String :=
  "Error on line " ++ toString line ++ " of recipe: "

def message : RecipeFault → String
  | .unexpectedText line text => located line ++ "'" ++ String.ofList text ++ "'."
  | .unexpectedToken line text =>
    located line ++ "unexpected token '" ++ String.ofList text ++ "'."
  | .unexpectedEnd => "Unexpected end of file."
  | .valueOutOfRange line text =>
    located line ++ "value '" ++ String.ofList text ++ "' out of range."
  | .tooManyStatements line =>
    located line ++ "more than " ++ toString Script.capacity ++ " statements."
  | .notTransmittable place command =>
    "Statement " ++ toString place ++ " of recipe (" ++ command.tag.text ++
      ") cannot be sent to the controller."
  | .missingPhase => "Recipe needs a mashing or sparging phase to be sent to the controller."

end RecipeFault

/-! ### Tokens of a text -/

/-- The line that a text begins with, without the blanks at its end. -/
def restOfLine (text : List Char) : List Char :=
  Text.trimRight (text.takeWhile (· != '\n'))

/-- The tokens of a text that begins on the given line. -/
def scan (line : Nat) (source : List Char) : Except RecipeFault (List Token) :=
  let line := line + (source.takeWhile Text.isBlank).count '\n'
  let text := source.dropWhile Text.isBlank
  if _blank : text = [] then .ok []
  else
    match _found : lexeme? text with
    | none => .error (.unexpectedText line (restOfLine text))
    | some (kind, length) =>
      (scan line (text.drop length)).map fun tokens =>
        { kind, text := text.take length, line } :: tokens
termination_by source.length
decreasing_by
  have hpos := lexeme?_pos _found
  have hne : 0 < (source.dropWhile Text.isBlank).length := List.length_pos_iff.2 _blank
  have hle := (List.dropWhile_suffix (l := source) Text.isBlank).length_le
  rw [List.length_drop]
  dsimp only at hpos
  omega

def tokens (source : String) : Except RecipeFault (List Token) :=
  scan 1 source.toList

end Brewhouse.Recipe
