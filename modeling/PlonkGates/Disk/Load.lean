import PlonkGates.Disk.Basic
import PlonkGates.Equation.Parser
import PlonkGates.Json.Reader
import PlonkGates.Settings

/-!
# Reading programs and settings from a disk

Both are texts in UTF-8 with any kind of line ends. Settings are a JSON object.
-/

namespace PlonkGates

/-- The equations of the program in a file. -/
def Equation.load (env : Environment) (d : Disk) (path : String) :
    Except Fault (List Equation) := do
  Equation.parseBytes path (← d.read env (Path.ofText path))

namespace Settings

/-- How many steps enclose the reading of a container. -/
def stepsOutsideReading : Nat := 6

/-- The settings with those in a text replaced; the path is for messages. -/
def updateFromText (depth : Nat) (base : Settings) (path : String) (text : List Char) :
    Except Fault Settings :=
  match Json.parse (depth - stepsOutsideReading) text with
  | .error .malformed => .error (.settings (.notJson path))
  | .error (.tooManyDigits count) => .error (.tooManyDigits count)
  | .error (.tooDeep cause) => .error (.tooDeep cause)
  | .ok (.object entries) => base.update (depth - 1) entries
  | .ok _ => .error (.settings (.notObject path))

/-- The settings with those in a file replaced, in steps that are nested up to a depth. -/
def load (env : Environment) (d : Disk) (depth : Nat) (base : Settings) (path : String) :
    Except Fault Settings := do
  let p := Path.ofText path
  if ← d.holds p then
    let bytes ← d.read env p
    match Text.decodeUtf8 bytes with
    | .error failure => .error (.undecodable failure)
    | .ok text => base.updateFromText depth path (Text.unifyNewlines text)
  else .error (.settings (.notFound path))

end Settings

end PlonkGates
