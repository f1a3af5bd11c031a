import PlonkGates.Fault
import PlonkGates.Text.Blank

/-!
# Assignments

A value is supplied on the command line as `NAME=VALUE`. The first equals sign divides the two;
blanks around either are dropped; the value is an integer.
-/

namespace PlonkGates

structure Assignment where
  name : String
  value : Int
deriving DecidableEq, Repr

/-- The parts of a text before and after its first equals sign. -/
def splitAtEquals? : List Char → Option (List Char × List Char)
  | [] => none
  | c :: cs =>
    if c = '=' then some ([], cs)
    else (splitAtEquals? cs).map fun (before, after) => (c :: before, after)

def Assignment.parse (text : String) : Except Fault Assignment :=
  match splitAtEquals? text.toList with
  | none => .error (.assignment (.noEqualsSign text))
  | some (before, after) =>
    let name := Text.trim before
    let value := Text.trim after
    if name.isEmpty then .error (.assignment (.emptyName text))
    else match Text.readInteger value with
      | .ok z => .ok ⟨String.ofList name, z⟩
      | .error _ => .error (.assignment (.notInteger (String.ofList value)))

end PlonkGates
