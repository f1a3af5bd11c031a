import PlonkGates.Fault

/-!
# Copying values

A value is copied part by part, and the parts of a container inside of the container. The copy of an
element is an object of what it holds and its field. Values that are nested too deep cannot be
copied.
-/

namespace PlonkGates.Value

/-- Whether a part that holds no other can be copied when the steps may be nested so deep. -/
def partCopied : Nat → Except Fault Unit
  | 0 => .error (.tooDeep .entering)
  | 1 => .error (.tooDeep .stepping)
  | _ => .ok ()

/-- The depth that is left for an item of a container. -/
def insideContainer : Nat → Except Fault Nat
  | depth + 2 => .ok depth
  | _ => .error (.tooDeep .entering)

mutual

/-- The copy of a value. Every container takes two steps, one inside the other. -/
def copied (depth : Nat) : Value → Except Fault Value
  | .list items => do
    if depth = 0 then .error (.tooDeep .entering)
    return .list (← copiedItems depth items)
  | .object entries => do
    if depth = 0 then .error (.tooDeep .entering)
    return .object (← copiedEntries depth entries)
  | .element x => do
    partCopied depth
    return .object [("value", x.content), ("field", .text x.field.toText)]
  | v => do
    partCopied depth
    return v

def copiedItems (depth : Nat) : List Value → Except Fault (List Value)
  | [] => .ok []
  | v :: rest => do
    let v ← copied (← insideContainer depth) v
    return v :: (← copiedItems depth rest)

def copiedEntries (depth : Nat) :
    List (Text.CodePoints × Value) → Except Fault (List (Text.CodePoints × Value))
  | [] => .ok []
  | (key, v) :: rest => do
    partCopied (← insideContainer depth)
    let v ← copied (← insideContainer depth) v
    return (key, v) :: (← copiedEntries depth rest)

end

end PlonkGates.Value
