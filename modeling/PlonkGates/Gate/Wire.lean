/-!
# Wires

A gate has three wires: two that may be multiplied with each other, and an output.
-/

namespace PlonkGates

inductive Wire where
  | a
  | b
  | o
deriving DecidableEq, Repr

namespace Wire

/-- The wires in the order in which linear terms take them. -/
def all : List Wire := [a, b, o]

/-- The name of a wire in listings. -/
def label : Wire → String
  | a => "a"
  | b => "b"
  | o => "o"

/-- The name of a wire in messages. -/
def title : Wire → String
  | a => "A"
  | b => "B"
  | o => "O"

end Wire

end PlonkGates
