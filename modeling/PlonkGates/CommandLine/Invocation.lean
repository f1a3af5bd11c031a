import PlonkGates.CommandLine.Options

/-!
# The command line

Three commands work on a program: `compile` writes its gate listing, `check` tells which equations
do not hold for given values, and `inputs` prints the public inputs. The options for the settings
and for the log come before the command.
-/

namespace PlonkGates

inductive Command where
  | compile
  | check
  | inputs
deriving DecidableEq, Repr

namespace Command

def all : List Command := [compile, check, inputs]

def label : Command → String
  | compile => "compile"
  | check => "check"
  | inputs => "inputs"

def ofLabel? (s : String) : Option Command := all.find? (·.label = s)

end Command

/-- What a command line asks for. -/
structure Invocation where
  /-- The path of the settings. -/
  config : Option String
  verbose : Bool
  command : Command
  /-- The path of the program. -/
  circuit : String
  /-- The path of the listing. -/
  output : Option String
  /-- The supplied values; an option without a value supplies none. -/
  values : List (Option Assignment)
deriving DecidableEq, Repr

namespace Invocation

def helpOption : OptionSpec := ⟨["-h", "--help"], .help⟩

def configOption : OptionSpec := ⟨["--config", "-c"], .text⟩

def verboseOption : OptionSpec := ⟨["--verbose", "-v"], .switch⟩

def outputOption : OptionSpec := ⟨["--output", "-o"], .text⟩

def valueOption : OptionSpec := ⟨["--val"], .assignment⟩

/-- What stands before the command, and the command with its arguments. -/
def mainSpec : CommandSpec where
  title := "plonkdsl"
  options := [helpOption, configOption, verboseOption]
  positional := "command"
  greedy := true

def commandSpec (command : Command) : CommandSpec where
  title := mainSpec.title ++ " " ++ command.label
  options := [helpOption, match command with
    | .compile => outputOption
    | _ => valueOption]
  positional := "circuit"
  greedy := false

/-- What an option was given the last time, if it was given a value then. -/
def lastText (o : OptionSpec) (settings : List Setting) : Option String :=
  (settings.filterMap fun
    | .text name value => if name = o.title then some value else none
    | _ => none).getLast?.join

def assignments (settings : List Setting) : List (Option Assignment) :=
  settings.filterMap fun
    | .assignment a => some a
    | _ => none

/-- An empty path counts as not given. -/
def pathOf (o : OptionSpec) (settings : List Setting) : Option String :=
  (lastText o settings).filter (!·.isEmpty)

/-- The choices that a message offers. -/
def choices : String := ", ".intercalate (Command.all.map fun c => Text.quoted c.label)

def parse (arguments : List String) : Except Usage Invocation := do
  let main ← mainSpec.read arguments
  let label := main.positional.headD ""
  match Command.ofLabel? label with
  | none =>
    mainSpec.failAt "command"
      ("invalid choice: " ++ Text.quoted label ++ " (choose from " ++ choices ++ ")")
  | some command =>
    let own ← (commandSpec command).read (main.positional.drop 1)
    let extras := main.extras ++ own.extras
    if extras.isEmpty then
      .ok {
        config := pathOf configOption main.settings
        verbose := main.settings.contains (.switch verboseOption.title)
        command := command
        circuit := own.positional.headD ""
        output := pathOf outputOption own.settings
        values := assignments own.settings }
    else mainSpec.fail ("unrecognized arguments: " ++ " ".intercalate extras)

end Invocation

end PlonkGates
