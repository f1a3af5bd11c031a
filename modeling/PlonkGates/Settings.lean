import PlonkGates.Copying
import PlonkGates.Expression.OfEquation
import PlonkGates.Field.Arithmetic
import PlonkGates.Log
import PlonkGates.Text.Names
import PlonkGates.Text.Uppercase

/-!
# Settings

Four settings steer the compiler. They are supplied as an object whose entries replace those of
earlier settings; unknown keys are turned down. The suffix of listings may be any value that is not
void: whether it can be appended to a path shows only when that is done.
-/

namespace PlonkGates

structure Settings where
  field : PrimeField
  /-- The largest coefficient that is accepted in a program. -/
  maxCoefficient : Nat
  logLevel : LogLevel
  /-- What is appended to the path of a program to name its listing. -/
  outputSuffix : Value
deriving Repr

namespace Settings

def default : Settings := ⟨.blsScalar, defaultMaximum, .warning, .text ".gates.json"⟩

def knownKeys : List Text.CodePoints :=
  ["field_modulus", "log_level", "max_coefficient", "output_suffix"]

/-! ## One setting -/

theorem two_le_toNat {n : Int} (h : ¬ n < 2) : 2 ≤ n.toNat := by omega

def readModulus : Value → Except Fault PrimeField
  | .int n =>
    if h : n < 2 then .error (.settings .modulusSmall) else .ok ⟨n.toNat, two_le_toNat h⟩
  | _ => .error (.settings .modulusKind)

def readMaximum : Value → Except Fault Nat
  | .int n => if n < 0 then .error (.settings .maximumNegative) else .ok n.toNat
  | _ => .error (.settings .maximumKind)

/-- A level is written in any case. What is no text is no level either. -/
def readLevel (v : Value) : Except Fault LogLevel := do
  match LogLevel.ofTitle? (Text.uppercase (← v.write)) with
  | some level => .ok level
  | none => .error (.settings .logLevel)

def readSuffix (v : Value) : Except Fault Value :=
  if v.isVoid then .error (.settings .emptySuffix) else .ok v

/-! ## All settings -/

/-- The supplied value of a setting, or the one that it would replace. -/
def choose {α : Type} (entries : List (Text.CodePoints × Value)) (key : Text.CodePoints)
    (read : Value → Except Fault α) (base : α) : Except Fault α :=
  match entries.lookup key with
  | some v => read v
  | none => .ok base

/-- How many steps enclose the copying of a setting. -/
def stepsOutsideCopying : Nat := 5

/--
The settings with the given entries replaced, in steps that are nested up to a depth. The first
setting that is wrong is reported.
-/
def update (depth : Nat) (base : Settings) (entries : List (Text.CodePoints × Value)) :
    Except Fault Settings := do
  let unknown := Text.sortNames ((entries.map (·.1)).filter (· ∉ knownKeys))
  if unknown ≠ [] then .error (.settings (.unknownKeys unknown))
  else
    let kept ← base.outputSuffix.copied (depth - stepsOutsideCopying)
    let field ← choose entries "field_modulus" readModulus base.field
    let maximum ← choose entries "max_coefficient" readMaximum base.maxCoefficient
    let level ← choose entries "log_level" readLevel base.logLevel
    let suffix ← choose entries "output_suffix" readSuffix kept
    .ok ⟨field, maximum, level, suffix⟩

end Settings

end PlonkGates
