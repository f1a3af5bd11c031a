import PlonkGates.Fingerprint

/-!
# Mappings

Pairs may be supplied as a mapping, in which every key has one value. Two keys are one if they are
equal and their fingerprints coincide. A repeated key keeps its first place and its last value.
-/

namespace PlonkGates.Mapping

/-- Whether two values are the same key. -/
def sameKey (k l : Value) : Except Fault Bool := do
  let coincide ← k.sameFingerprint l
  .ok (coincide && k.same l)

/-- Binds a key to a value. -/
def put (key v : Value) : List (Value × Value) → Except Fault (List (Value × Value))
  | [] => .ok [(key, v)]
  | (k, w) :: rest => do
    if ← sameKey k key then .ok ((k, v) :: rest)
    else .ok ((k, w) :: (← put key v rest))

/-- Binds a key that has a fingerprint to a value. -/
def bind (key v : Value) (entries : List (Value × Value)) : Except Fault (List (Value × Value)) :=
  do
    let _ ← Fingerprint.ofValue key
    put key v entries

/-- The mapping that pairs make from the left to the right. -/
def ofPairs (pairs : List (Value × Value)) : Except Fault (List (Value × Value)) :=
  pairs.foldlM (fun entries (key, v) => bind key v entries) []

end PlonkGates.Mapping
