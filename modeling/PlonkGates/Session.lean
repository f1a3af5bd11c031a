import PlonkGates.Circuit.Listing
import PlonkGates.CommandLine.Invocation
import PlonkGates.Disk.Load
import PlonkGates.Disk.Write

/-!
# Sessions

A session carries out command lines on a disk, one after the other. Each leaves what it printed, its
log, and an exit status: 0 if all went well, 1 if an equation does not hold, 2 if the input is at
fault. A fault that is not the input's ends the command without a status.
-/

namespace PlonkGates

/-- What lasts from one command line to the next. -/
structure Session where
  disk : Disk
  logger : Logger
deriving DecidableEq, Repr

/-- The state while a command is carried out. -/
structure Progress where
  session : Session
  /-- The lines printed so far, the last one first. -/
  printed : List String
  /-- The records shown so far, the last one first. -/
  log : List LogRecord

/-- A step of a command: it may fail, and what it did before stays. -/
abbrev Run := ExceptT Fault (StateM Progress)

namespace Run

/-- A result that the command cannot do without. -/
def demand {α : Type} (x : Except Fault α) : Run α := ExceptT.mk (pure x)

def print (line : String) : Run Unit :=
  modify fun p => { p with printed := line :: p.printed }

def emit (level : LogLevel) (origin message : String) : Run Unit :=
  modify fun p =>
    let r : LogRecord := ⟨level, "plonkdsl." ++ origin, message⟩
    if p.session.logger.shows r then { p with log := r :: p.log } else p

def currentDisk : Run Disk := do return (← get).session.disk

/-- A step that changes the disk, also when it fails. -/
def onDisk {α : Type} (step : Disk → Disk × Except Fault α) : Run α := do
  let p ← get
  let (disk, result) := step p.session.disk
  set { p with session := { p.session with disk := disk } }
  demand result

end Run

namespace Session

open Run
open Text (numeral)

/-! ## Circuits -/

/-- The circuit of a file. -/
def loadCircuit (env : Environment) (settings : Settings) (path : String) : Run Circuit := do
  emit .info "compiler.circuit" ("compiling " ++ path)
  let equations ← demand (Equation.load env (← currentDisk) path)
  emit .debug "frontend.parser" ("parsed " ++ numeral equations.length ++ " equation(s)")
  let c ← demand (Circuit.ofEquations settings equations)
  emit .debug "compiler.validation" ("validated " ++ numeral c.size ++ " expression(s)")
  emit .debug "compiler.variables"
    ("derived " ++ numeral c.table.size ++ " variable(s): " ++
      numeral c.table.witnesses.length ++ " witness, " ++
      numeral c.table.publicInputs.length ++ " public input")
  emit .debug "compiler.circuit"
    ("circuit built: " ++ numeral c.size ++ " expression(s), " ++ numeral c.table.size ++
      " variable(s)")
  return c

/-- Records about gates, the first of which has the position `index`; texts are not shown. -/
def emitGates (index : Nat) : List Gate → Run Unit
  | [] => pure ()
  | g :: rest => do
    match g.selectors.toText with
    | .ok shown => emit .debug "backend.composer" ("gate " ++ numeral index ++ ": " ++ shown)
    | .error _ => pure ()
    emitGates (index + 1) rest

/-- The lowered circuit. A capacity too long to be written is not logged. -/
def lowerCircuit (c : Circuit) : Run LoweredCircuit := do
  let l ← demand c.lower
  emitGates 0 l.gates
  match Text.numeral? l.paddedGates with
  | some padded =>
    emit .info "compiler.lowering"
      ("lowered " ++ numeral c.size ++ " expression(s) into " ++ numeral l.gates.length ++
        " gate(s), padded to " ++ padded)
  | none => pure ()
  return l

/-! ## Commands -/

/-- Where a listing goes: to the path that is asked for, or to that of the program and a suffix. An
empty path is none. -/
def listingTarget (settings : Settings) (circuit : String) (output : Option String) :
    Except Fault Path :=
  match output.filter (!·.isEmpty), settings.outputSuffix with
  | some path, _ => .ok (.ofText path)
  | none, .text suffix => .ok (.ofText (circuit ++ suffix))
  | none, .codePoints suffix => .ok (.ofPoints (.append (.ofText circuit) suffix))
  | none, v => .error (.textAppend v.kind)

/-- The indentation of listings. -/
def listingIndent : Nat := 2

/-- Writes the listing of a program and returns its path. -/
def writeListing (env : Environment) (settings : Settings) (circuit : String)
    (output : Option String) : Run Path := do
  let c ← loadCircuit env settings circuit
  let l ← lowerCircuit c
  let target ← demand (listingTarget settings circuit output)
  let listing ← demand (Listing.ofLowered c l circuit)
  onDisk fun d => d.writeJson env (env.depth - 1) target (some listingIndent) listing.toValue
  emit .info "runner" ("wrote " ++ numeral l.gates.length ++ " gate(s) to " ++ target.text.shown)
  return target

/-- What keeps a text from being printed. -/
def printBarrier? (env : Environment) (t : Text.CodePoints) : Option Text.SurrogateRun :=
  if env.printsText then t.surrogates? else t.barrier?

/-- The line that tells a path, unless that cannot be printed. Bytes that are no text are replaced
in what is recorded here. -/
def pathLine (env : Environment) (p : Path) : Except Fault String :=
  match printBarrier? env p.text with
  | some run => .error (.unencodable run)
  | none => .ok p.text.toText

def compile (env : Environment) (settings : Settings) (circuit : String)
    (output : Option String) : Run Nat := do
  let target ← writeListing env settings circuit output
  print (← demand (pathLine env target))
  return 0

/-- The names and values before the first one that is missing, as they are supplied to a table. -/
def pairsOf : List (Option Assignment) → List (Value × Value)
  | some a :: rest => (.text a.name, .int a.value) :: pairsOf rest
  | _ => []

/-- A circuit with supplied values. The names before a missing value are checked first. -/
def supplyTo (c : Circuit) (values : List (Option Assignment)) : Except Fault Circuit := do
  let c ← c.setValues (pairsOf values)
  if values.contains none then .error .emptyAssignment else .ok c

/-- The circuit of a file with values, and its gates. -/
def supply (env : Environment) (settings : Settings) (circuit : String)
    (values : List (Option Assignment)) : Run (Circuit × LoweredCircuit) := do
  let c ← loadCircuit env settings circuit
  let c ← demand (supplyTo c values)
  emit .debug "compiler.variables" ("set " ++ numeral values.length ++ " value(s)")
  return (c, ← lowerCircuit c)

def inputs (env : Environment) (settings : Settings) (circuit : String)
    (values : List (Option Assignment)) : Run Nat := do
  let (c, _) ← supply env settings circuit values
  for (name, x) in c.table.publicInputs do
    print (name ++ "=" ++ (← demand (Text.writeInteger (← demand x.signed))))
  return 0

def check (env : Environment) (settings : Settings) (circuit : String)
    (values : List (Option Assignment)) : Run Nat := do
  let (c, l) ← supply env settings circuit values
  let failures ← demand (c.failures l)
  for failure in failures do
    print ("unsatisfied: " ++ failure)
  if failures.isEmpty then
    print ("ok: " ++ numeral l.gates.length ++ " gate(s) satisfied")
    return 0
  else return 1

/-- The settings under which a command line is carried out. -/
def settingsOf (env : Environment) (d : Disk) (i : Invocation) : Except Fault Settings :=
  match i.config with
  | some path => Settings.load env d env.depth .default path
  | none => .ok .default

/-- Carries out what a command line asks for. -/
def carryOut (env : Environment) (i : Invocation) : Run Nat := do
  let settings ← demand (settingsOf env (← currentDisk) i)
  let threshold := if i.verbose then LogLevel.debug else settings.logLevel
  modify fun p =>
    { p with session := { p.session with
        logger := p.session.logger.configure threshold.severity } }
  match i.command with
  | .compile => compile env settings i.circuit i.output
  | .inputs => inputs env settings i.circuit i.values
  | .check => check env settings i.circuit i.values

/-! ## Outcomes -/

/-- What a command line leaves behind. -/
structure Outcome where
  session : Session
  /-- The exit status, or the fault that ended the command without one. -/
  status : Except Fault Nat
  stdout : String
  /-- What is said about an error of the input, after all records. -/
  complaint : String
  records : List LogRecord

namespace Outcome

/-- The lines of the log, one for each record. -/
def log (o : Outcome) : List String := o.records.map (·.firstLine)

/-- The lines beside the log: the further lines of its records, then the complaint. -/
def stderr (o : Outcome) : List String :=
  o.records.flatMap (·.furtherLines) ++ Text.filledLines o.complaint

end Outcome

def exitError : Nat := 2

/-- Every line with its line feed. -/
def unlines (lines : List String) : String := String.join (lines.map (· ++ "\n"))

/-- What is said about a command line that cannot be carried out: the last line that has text. -/
def usageMessage (title message : String) : String :=
  (Text.filledLines (title ++ ": error: " ++ message)).getLastD ""

/-- Carries out one command line. -/
def run (env : Environment) (s : Session) (arguments : List String) : Outcome :=
  match Invocation.parse arguments with
  | .error (.help usage) => ⟨s, .ok 0, unlines [usage], "", []⟩
  | .error (.error title message) =>
    ⟨s, .ok exitError, "", unlines [usageMessage title message], []⟩
  | .ok invocation =>
    let (result, p) := (carryOut env invocation).run ⟨s, [], []⟩
    let outcome (status : Except Fault Nat) (complaint : String) : Outcome :=
      ⟨p.session, status, unlines p.printed.reverse, complaint, p.log.reverse⟩
    match result with
    | .ok status => outcome (.ok status) ""
    | .error fault =>
      if fault.reported then outcome (.ok exitError) ("error: " ++ fault.message ++ "\n")
      else outcome (.error fault) ""

end Session

end PlonkGates
