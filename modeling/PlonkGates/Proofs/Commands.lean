import PlonkGates.Proofs.Verdict
import PlonkGates.Session

/-!
# Carrying out a command

A command is a chain of steps that read the disk, print lines and leave records. `Run.Ends` says
what a step comes to, and `Run.Yields` is the case where nothing fails and the session stays: what
the step returns and what it prints. Steps are put together with `Ends.bind` and `Yields.bind`, so a
command is followed step by step.
-/

namespace PlonkGates

namespace Run

variable {α β : Type} {s s' s'' : Session}

/-- A step ends in a session with a value or a fault, and has printed lines. Nothing is said about
the records that it adds. -/
def Ends (s : Session) (x : Run α) (s' : Session) (result : Except Fault α) (lines : List String) :
    Prop :=
  ∀ printed log, ∃ log',
    x.run ⟨s, printed, log⟩ = (result, ⟨s', lines.reverse ++ printed, log'⟩)

/-- A step returns a value and prints lines. It leaves the session as it was, and nothing is said
about the records that it adds. -/
def Yields (s : Session) (x : Run α) (a : α) (lines : List String) : Prop :=
  ∀ printed log, ∃ log', x.run ⟨s, printed, log⟩ = (.ok a, ⟨s, lines.reverse ++ printed, log'⟩)

theorem Yields.ends {x : Run α} {a : α} {lines : List String} (h : Yields s x a lines) :
    Ends s x s (.ok a) lines := h

theorem run_bind_eq (x : Run α) (g : Except Fault α → StateM Progress (Except Fault β))
    (p : Progress) : (x.run >>= g) p = g (x.run p).1 (x.run p).2 := rfl

/-- A step that returned is followed by the rest of the chain. -/
theorem run_bind_of_ok {x : Run α} {f : α → Run β} {a : α} {p q : Progress}
    (h : x.run p = (.ok a, q)) : (x >>= f).run p = (f a).run q := by
  rw [ExceptT.run_bind, run_bind_eq, h]

theorem Ends.bind {x : Run α} {f : α → Run β} {a : α} {result : Except Fault β}
    {lines more : List String} (hx : Ends s x s' (.ok a) lines)
    (hf : Ends s' (f a) s'' result more) : Ends s (x >>= f) s'' result (lines ++ more) := by
  intro printed log
  obtain ⟨log₁, h₁⟩ := hx printed log
  obtain ⟨log₂, h₂⟩ := hf (lines.reverse ++ printed) log₁
  refine ⟨log₂, ?_⟩
  rw [run_bind_of_ok h₁, List.reverse_append, List.append_assoc]
  exact h₂

/-- A step that failed ends the chain. -/
theorem Ends.bind_of_error {x : Run α} {fault : Fault} {lines : List String}
    (hx : Ends s x s' (.error fault) lines) (f : α → Run β) :
    Ends s (x >>= f) s' (.error fault) lines := by
  intro printed log
  obtain ⟨log', h⟩ := hx printed log
  refine ⟨log', ?_⟩
  rw [ExceptT.run_bind, run_bind_eq, h]
  rfl

theorem yields_pure (a : α) : Yields s (pure a) a [] := fun _ log => ⟨log, rfl⟩

/-- **What a chain of two steps yields.** -/
theorem Yields.bind {x : Run α} {f : α → Run β} {a : α} {b : β} {lines more : List String}
    (hx : Yields s x a lines) (hf : Yields s (f a) b more) :
    Yields s (x >>= f) b (lines ++ more) :=
  hx.ends.bind hf.ends

theorem ends_demand (x : Except Fault α) : Ends s (demand x) s x [] := fun _ log => ⟨log, rfl⟩

theorem yields_demand {x : Except Fault α} {a : α} (h : x = .ok a) : Yields s (demand x) a [] := by
  rw [h]
  exact ends_demand (.ok a)

theorem yields_print (line : String) : Yields s (print line) () [line] :=
  fun _ log => ⟨log, rfl⟩

theorem yields_emit {level : LogLevel} {origin message : String} :
    Yields s (emit level origin message) () [] := by
  intro printed log
  by_cases hshows : s.logger.shows ⟨level, "plonkdsl." ++ origin, message⟩ = true
  · exact ⟨⟨level, "plonkdsl." ++ origin, message⟩ :: log, congrArg (Prod.mk _) (if_pos hshows)⟩
  · exact ⟨log, congrArg (Prod.mk _) (if_neg hshows)⟩

theorem yields_currentDisk : Yields s currentDisk s.disk [] := fun _ log => ⟨log, rfl⟩

/-- A step on the disk leaves the disk that it returns. -/
theorem ends_onDisk {step : Disk → Disk × Except Fault α} {d : Disk} {result : Except Fault α}
    (h : step s.disk = (d, result)) : Ends s (onDisk step) ⟨d, s.logger⟩ result [] := by
  intro printed log
  have hrun : (onDisk step).run ⟨s, printed, log⟩ =
      ((step s.disk).2, ⟨⟨(step s.disk).1, s.logger⟩, printed, log⟩) := rfl
  refine ⟨log, ?_⟩
  rw [hrun, h]
  rfl

/-- A loop over a list prints one line for each member, if each turn of it does. -/
theorem yields_forIn {body : α → PUnit → Run (ForInStep PUnit)} {text : α → String} {xs : List α}
    (h : ∀ x ∈ xs, Yields s (body x PUnit.unit) (ForInStep.yield PUnit.unit) [text x]) :
    Yields s (forIn xs PUnit.unit body) PUnit.unit (xs.map text) := by
  induction xs with
  | nil => exact yields_pure PUnit.unit
  | cons x xs ih =>
    obtain ⟨hx, hxs⟩ := List.forall_mem_cons.mp h
    rw [List.forIn_cons]
    exact hx.bind (ih hxs)

theorem yields_forIn_print (text : α → String) (xs : List α) :
    Yields s (forIn xs PUnit.unit fun x _ => do
      print (text x)
      pure (ForInStep.yield PUnit.unit)) PUnit.unit (xs.map text) :=
  yields_forIn fun x _ => (yields_print (text x)).bind (yields_pure _)

end Run

/-! ## Programs on a disk -/

/-- The file at a path holds a text, with its line ends as they are read. -/
def Disk.HoldsText (env : Environment) (d : Disk) (path text : String) : Prop :=
  ∃ bytes chars, d.read env (Path.ofText path) = .ok bytes ∧ Text.decodeUtf8 bytes = .ok chars ∧
    text.toList = Text.unifyNewlines chars

theorem Equation.load_of_holdsText {env : Environment} {d : Disk} {path text : String}
    (h : d.HoldsText env path text) : load env d path = parse text := by
  obtain ⟨bytes, chars, hread, hdecode, htext⟩ := h
  rw [load, hread, ok_bind, parseBytes, hdecode, parse, htext]

namespace Session

open Run

variable {env : Environment} {s : Session} {settings : Settings} {path text : String}

/-- The circuit of a file, or why there is none. -/
def circuitOf (env : Environment) (settings : Settings) (d : Disk) (path : String) :
    Except Fault Circuit :=
  Equation.load env d path >>= Circuit.ofEquations settings

theorem circuitOf_of_holdsText {d : Disk} (htext : d.HoldsText env path text) :
    circuitOf env settings d path = Circuit.parse settings text := by
  rw [circuitOf, Equation.load_of_holdsText htext]
  rfl

theorem ends_loadCircuit :
    Ends s (loadCircuit env settings path) s (circuitOf env settings s.disk path) [] := by
  rw [circuitOf]
  refine yields_emit.ends.bind (yields_currentDisk.ends.bind ?_)
  cases Equation.load env s.disk path with
  | error fault => exact (ends_demand (.error fault)).bind_of_error _
  | ok qs =>
    refine (ends_demand (.ok qs)).bind (yields_emit.ends.bind ?_)
    rw [ok_bind]
    cases Circuit.ofEquations settings qs with
    | error fault => exact (ends_demand (.error fault)).bind_of_error _
    | ok c =>
      exact (ends_demand (.ok c)).bind
        (yields_emit.bind (yields_emit.bind (yields_emit.bind (yields_pure c)))).ends

theorem yields_loadCircuit {c : Circuit} (htext : s.disk.HoldsText env path text)
    (hc : Circuit.parse settings text = .ok c) :
    Yields s (loadCircuit env settings path) c [] := by
  have hends : Ends s (loadCircuit env settings path) s _ [] := ends_loadCircuit
  rwa [circuitOf_of_holdsText htext, hc] at hends

/-! ## Lowering -/

theorem yields_emitGates (index : Nat) (gates : List Gate) :
    Yields s (emitGates index gates) () [] := by
  induction gates generalizing index with
  | nil => exact yields_pure ()
  | cons g gates ih =>
    rw [emitGates]
    cases g.selectors.toText with
    | ok shown => exact yields_emit.bind (ih (index + 1))
    | error fault => exact ih (index + 1)

theorem ends_lowerCircuit (c : Circuit) : Ends s (lowerCircuit c) s c.lower [] := by
  unfold lowerCircuit
  cases c.lower with
  | error fault => exact (ends_demand (.error fault)).bind_of_error _
  | ok l =>
    refine (ends_demand (.ok l)).bind ((yields_emitGates 0 l.gates).ends.bind ?_)
    cases Text.numeral? l.paddedGates with
    | some padded => exact (yields_emit.bind (yields_pure l)).ends
    | none => exact (yields_pure l).ends

theorem yields_lowerCircuit {c : Circuit} {l : LoweredCircuit} (hl : c.lower = .ok l) :
    Yields s (lowerCircuit c) l [] := by
  have hends : Ends s (lowerCircuit c) s c.lower [] := ends_lowerCircuit c
  rwa [hl] at hends

/-! ## The command -/

theorem supplyTo_map_some (c : Circuit) (values : List Assignment) :
    supplyTo c (values.map some) = c.setValues (Assignment.pairs values) := by
  have hfull : (values.map some).contains none = false := by simp
  rw [supplyTo, pairsOf_map_some]
  simp only [hfull, Bool.false_eq_true, if_false]
  cases c.setValues (Assignment.pairs values) with
  | error fault => rfl
  | ok d => rfl

theorem yields_supply {c d : Circuit} {l : LoweredCircuit} {values : List Assignment}
    (htext : s.disk.HoldsText env path text) (hc : Circuit.parse settings text = .ok c)
    (hset : c.setValues (Assignment.pairs values) = .ok d) (hl : d.lower = .ok l) :
    Yields s (supply env settings path (values.map some)) (d, l) [] := by
  rw [← supplyTo_map_some] at hset
  exact (yields_loadCircuit htext hc).bind ((yields_demand hset).bind (yields_emit.bind
    ((yields_lowerCircuit hl).bind (yields_pure (d, l)))))

/-- What is printed about a number of gates, given the lines about those that do not hold. -/
def verdict (gates : Nat) (lines : List String) : List String :=
  lines.map ("unsatisfied: " ++ ·) ++
    if lines.isEmpty then ["ok: " ++ Text.numeral gates ++ " gate(s) satisfied"] else []

theorem yields_check {d : Circuit} {l : LoweredCircuit} {values : List (Option Assignment)}
    {lines : List String} (hsupply : Yields s (supply env settings path values) (d, l) [])
    (hlines : d.failures l = .ok lines) :
    Yields s (check env settings path values) (if lines.isEmpty then 0 else 1)
      (verdict l.gates.length lines) := by
  refine hsupply.bind ((yields_demand hlines).bind
    ((yields_forIn_print ("unsatisfied: " ++ ·) lines).bind ?_))
  cases lines.isEmpty with
  | true => exact (yields_print _).bind (yields_pure 0)
  | false => exact yields_pure 1

/-- The command that a command line asks for. -/
def commandOf (env : Environment) (settings : Settings) (i : Invocation) : Run Nat :=
  match i.command with
  | .compile => compile env settings i.circuit i.output
  | .inputs => inputs env settings i.circuit i.values
  | .check => check env settings i.circuit i.values

theorem ends_configure (threshold : LogLevel) :
    Ends s (modify fun p => { p with session := { p.session with
        logger := p.session.logger.configure threshold.severity } })
      ⟨s.disk, s.logger.configure threshold.severity⟩ (.ok ()) [] :=
  fun _ log => ⟨log, rfl⟩

/-- Only the threshold of the log has changed when a command starts. -/
def atStart (s : Session) (settings : Settings) (i : Invocation) : Session :=
  ⟨s.disk, s.logger.configure (if i.verbose then LogLevel.debug else settings.logLevel).severity⟩

/-- A command line is carried out as its command is, once there are settings. -/
theorem ends_carryOut {i : Invocation} {s' : Session} {result : Except Fault Nat}
    {lines : List String} (hsettings : settingsOf env s.disk i = .ok settings)
    (hcommand : Ends (s.atStart settings i) (commandOf env settings i) s' result lines) :
    Ends s (carryOut env i) s' result lines := by
  have hdemand : Ends s (demand (settingsOf env s.disk i)) s (.ok settings) [] :=
    hsettings ▸ ends_demand _
  exact yields_currentDisk.ends.bind (hdemand.bind ((ends_configure _).bind hcommand))

theorem ends_carryOut_of_error {i : Invocation} {fault : Fault}
    (hsettings : settingsOf env s.disk i = .error fault) :
    Ends s (carryOut env i) s (.error fault) [] := by
  have hdemand : Ends s (demand (settingsOf env s.disk i)) s (.error fault) [] :=
    hsettings ▸ ends_demand _
  exact yields_currentDisk.ends.bind (hdemand.bind_of_error _)

/-- What a result is to the caller of a command line: a status, or a fault that is not the input's,
and what is said about it. -/
def toldOf : Except Fault Nat → Except Fault Nat × String
  | .ok n => (.ok n, "")
  | .error fault =>
    if fault.reported then (.ok exitError, "error: " ++ fault.message ++ "\n")
    else (.error fault, "")

/-- **The outcome of a command line that is carried out.** -/
theorem run_of_ends {arguments : List String} {i : Invocation} {s' : Session}
    {result : Except Fault Nat} {lines : List String} (hi : Invocation.parse arguments = .ok i)
    (hcarry : Ends s (carryOut env i) s' result lines) :
    (run env s arguments).session = s' ∧ (run env s arguments).status = (toldOf result).1 ∧
      (run env s arguments).complaint = (toldOf result).2 ∧
      (run env s arguments).stdout = unlines lines := by
  obtain ⟨log', hrun⟩ := hcarry [] []
  have hprinted : unlines (lines.reverse ++ []).reverse = unlines lines := by simp
  unfold run
  rw [hi]
  dsimp only
  rw [hrun]
  cases result with
  | ok n => exact ⟨rfl, rfl, rfl, hprinted⟩
  | error fault =>
    rw [toldOf]
    dsimp only
    split_ifs
    · exact ⟨rfl, rfl, rfl, hprinted⟩
    · exact ⟨rfl, rfl, rfl, hprinted⟩

/-- The outcome of a command line whose command fails nowhere. -/
theorem run_of_yields {arguments : List String} {i : Invocation} {n : Nat} {lines : List String}
    (hi : Invocation.parse arguments = .ok i) (hsettings : settingsOf env s.disk i = .ok settings)
    (hcommand : ∀ s' : Session, s'.disk = s.disk → Yields s' (commandOf env settings i) n lines) :
    (run env s arguments).status = .ok n ∧ (run env s arguments).stdout = unlines lines := by
  obtain ⟨-, hstatus, -, hstdout⟩ := run_of_ends hi
    (ends_carryOut hsettings (hcommand (s.atStart settings i) rfl).ends)
  exact ⟨hstatus, hstdout⟩

/-- The outcome of a command line that asks for a check. -/
theorem run_of_yields_check {arguments : List String} {i : Invocation} {n : Nat}
    {lines : List String} (hi : Invocation.parse arguments = .ok i) (hcommand : i.command = .check)
    (hsettings : settingsOf env s.disk i = .ok settings)
    (hcheck : ∀ s' : Session, s'.disk = s.disk →
      Yields s' (check env settings i.circuit i.values) n lines) :
    (run env s arguments).status = .ok n ∧ (run env s arguments).stdout = unlines lines := by
  refine run_of_yields hi hsettings fun s' hdisk => ?_
  rw [commandOf, hcommand]
  exact hcheck s' hdisk

/-- A program in a file `f`, for examples. -/
def exampleText : String := "a*b - c = p\nc - 3d = 0"

/-- The equations of the program. -/
def exampleEquations : List Equation :=
  [⟨[⟨false, none, ["a", "b"]⟩, ⟨true, none, ["c"]⟩], some ⟨false, "p"⟩, some 1⟩,
   ⟨[⟨false, none, ["c"]⟩, ⟨true, some "3", ["d"]⟩], none, some 2⟩]

def exampleSession : Session :=
  ⟨.withFile .empty (.ofText "f") exampleText.toUTF8.toList, .unconfigured⟩

end Session

end PlonkGates
