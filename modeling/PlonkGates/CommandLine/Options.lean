import PlonkGates.Assignment

/-!
# Options

A command takes options and one positional argument, in any order. An option may be shortened to a
prefix that no other option has, its value may follow an equals sign or, for an option of one
letter, the letter itself, and options of one letter may share a dash. After `--` everything is
positional; as the value of an option it stands for no value. A text that starts with a dash is an
option unless it is a negative number or holds a space.

Arguments are first marked as options and positional ones, then consumed from left to right. What
nothing asks for is kept as an extra.
-/

namespace PlonkGates

inductive OptionKind where
  /-- Asks for a description of the command. -/
  | help
  | switch
  | text
  | assignment
deriving DecidableEq, Repr

structure OptionSpec where
  names : List String
  kind : OptionKind
deriving DecidableEq, Repr

/-- A command: the words that it is called by, its options, and its positional argument. -/
structure CommandSpec where
  title : String
  options : List OptionSpec
  positional : String
  /-- The positional argument takes everything that follows it. -/
  greedy : Bool
deriving DecidableEq, Repr

/-- Why a command line is not carried out. -/
inductive Usage where
  /-- A command was asked to describe itself. -/
  | help (usage : String)
  | error (title message : String)
deriving DecidableEq, Repr

/-- An option as it was given, with the value that it was given. -/
inductive Setting where
  | switch (name : String)
  | text (name : String) (value : Option String)
  | assignment (a : Option Assignment)
deriving DecidableEq, Repr

namespace OptionSpec

/-- The name of an option in messages. -/
def title (o : OptionSpec) : String := "/".intercalate o.names

def takesValue (o : OptionSpec) : Bool := o.kind == .text || o.kind == .assignment

end OptionSpec

namespace CommandSpec

def find? (c : CommandSpec) (name : String) : Option OptionSpec :=
  c.options.find? (·.names.contains name)

/-- How the command is called, on one line. -/
def usage (c : CommandSpec) : String :=
  let shown (o : OptionSpec) : String :=
    " [" ++ o.names.headD "" ++ (if o.takesValue then " VALUE" else "") ++ "]"
  "usage: " ++ c.title ++ String.join (c.options.map shown) ++ " " ++ c.positional ++
    if c.greedy then " ..." else ""

def fail {α : Type} (c : CommandSpec) (message : String) : Except Usage α :=
  .error (.error c.title message)

/-- An error about one argument. -/
def failAt {α : Type} (c : CommandSpec) (argument message : String) : Except Usage α :=
  c.fail ("argument " ++ argument ++ ": " ++ message)

end CommandSpec

/-! ## Marking -/

/-- A way to read an argument as an option: which one, by which name, with which value. -/
structure Interpretation where
  option : OptionSpec
  name : String
  value : Option (List Char)
deriving DecidableEq, Repr

inductive Mark where
  | positional
  /-- The argument `--`. -/
  | separator
  /-- It looks like an option; there may be no such option. -/
  | option (interpretation : Option Interpretation)
deriving DecidableEq, Repr

namespace Mark

/-- All options with one of their names, in the order of their declaration. -/
def namedOptions (c : CommandSpec) : List (String × OptionSpec) :=
  c.options.flatMap fun o => o.names.map fun name => (name, o)

/-- The options that a shortened name with two dashes may stand for. -/
def longInterpretations (c : CommandSpec) (cs : List Char) : List Interpretation :=
  let (name, value) := match splitAtEquals? cs with
    | some (name, value) => (name, some value)
    | none => (cs, none)
  (namedOptions c).filterMap fun (full, o) =>
    if name.isPrefixOf full.toList then some ⟨o, full, value⟩ else none

/-- The option of one letter that an argument with one dash starts with. -/
def shortInterpretations (c : CommandSpec) (cs : List Char) : List Interpretation :=
  (namedOptions c).filterMap fun (full, o) =>
    if full.toList = cs.take 2 then some ⟨o, full, some (cs.drop 2)⟩
    else if cs.isPrefixOf full.toList then some ⟨o, full, none⟩
    else none

def interpretations (c : CommandSpec) (cs : List Char) : List Interpretation :=
  if cs.take 2 = ['-', '-'] then longInterpretations c cs else shortInterpretations c cs

/-- The argument without a line feed at its end. -/
def withoutFinalNewline (cs : List Char) : List Char :=
  if cs.getLast? = some '\n' then cs.dropLast else cs

/-- A dash and digits with at most one point, before the last of them. -/
def isNegativeNumber : List Char → Bool
  | '-' :: cs =>
    let cs := withoutFinalNewline cs
    let rest := cs.dropWhile Text.isDecimalDigit
    if rest.isEmpty then !cs.isEmpty
    else rest.head? = some '.' && 1 < rest.length && (rest.drop 1).all Text.isDecimalDigit
  | _ => false

/-- The option whose name is the whole argument, or its part before the first equals sign. -/
def whole? (c : CommandSpec) (argument : String) : Option Interpretation :=
  match c.find? argument with
  | some o => some ⟨o, argument, none⟩
  | none => match splitAtEquals? argument.toList with
    | some (name, value) =>
      (c.find? (String.ofList name)).map fun o => ⟨o, String.ofList name, some value⟩
    | none => none

/-- The mark of an argument that is not after `--`. -/
def ofArgument (c : CommandSpec) (argument : String) : Except Usage Mark :=
  let cs := argument.toList
  if cs.head? ≠ some '-' ∨ cs.length = 1 then .ok .positional
  else match whole? c argument with
    | some found => .ok (.option (some found))
    | none => match interpretations c cs with
      | [found] => .ok (.option (some found))
      | [] =>
        if isNegativeNumber cs || cs.contains ' ' then .ok .positional else .ok (.option none)
      | several => c.fail ("ambiguous option: " ++ argument ++ " could match " ++
          ", ".intercalate (several.map (·.name)))

/-- Marks arguments one after the other; all after `--` are positional. -/
def ofArguments (c : CommandSpec) : List String → Except Usage (List (String × Mark))
  | [] => .ok []
  | argument :: rest =>
    if argument = "--" then
      .ok ((argument, separator) :: rest.map fun argument => (argument, positional))
    else do
      let mark ← ofArgument c argument
      let marks ← ofArguments c rest
      .ok ((argument, mark) :: marks)

end Mark

/-! ## Consuming -/

/-- What has been consumed. -/
structure Consumed where
  settings : List Setting
  positional : List String
  extras : List String
deriving DecidableEq, Repr

namespace Consumed

def nothing : Consumed := ⟨[], [], []⟩

def withExtra (r : Consumed) (argument : String) : Consumed :=
  { r with extras := r.extras ++ [argument] }

def withSetting (r : Consumed) (s : Setting) : Consumed := { r with settings := r.settings ++ [s] }

def withPositional (r : Consumed) (arguments : List String) : Consumed :=
  { r with positional := arguments }

end Consumed

/-- How a dash with options of one letter ends. -/
inductive ClusterEnd where
  | nothing
  /-- The last option has its value in the same argument. -/
  | value (o : OptionSpec) (value : List Char)
  /-- The value of the last option has to follow. -/
  | following (o : OptionSpec)
deriving DecidableEq, Repr

/-- A dash with several options of one letter: those without a value, and how it ends. -/
structure Cluster where
  switches : List OptionSpec
  ending : ClusterEnd
deriving DecidableEq, Repr

namespace Cluster

/-- An option that is followed by nothing. -/
def alone (o : OptionSpec) : Cluster :=
  if o.takesValue then ⟨[], .following o⟩ else ⟨[o], .nothing⟩

/-- A cluster with one more option without a value in front. -/
def after (o : OptionSpec) (cluster : Cluster) : Cluster :=
  { cluster with switches := o :: cluster.switches }

def failIgnored (c : CommandSpec) (o : OptionSpec) (value : List Char) : Except Usage Cluster :=
  c.failAt o.title ("ignored explicit argument " ++ Text.quoted (String.ofList value))

/--
An option that is followed by characters. They are its value if it takes one; after a single dash
they may also be further options.
-/
def ofTail (c : CommandSpec) (o : OptionSpec) (short : Bool) :
    List Char → Except Usage Cluster
  | [] => if o.takesValue then .ok ⟨[], .value o []⟩ else failIgnored c o []
  | letter :: rest =>
    if o.takesValue then .ok ⟨[], .value o (letter :: rest)⟩
    else if !short then failIgnored c o (letter :: rest)
    else match c.find? (String.ofList ['-', letter]) with
      | none => failIgnored c o (letter :: rest)
      | some next =>
        if rest.isEmpty then .ok ((alone next).after o)
        else (ofTail c next true rest).map (after o)

def ofInterpretation (c : CommandSpec) (i : Interpretation) : Except Usage Cluster :=
  match i.value with
  | none => .ok (alone i.option)
  | some value => ofTail c i.option (i.name.toList.take 2 ≠ ['-', '-']) value

end Cluster

namespace CommandSpec

/-- Takes the options of a cluster that have no value. -/
def takeSwitches (c : CommandSpec) (r : Consumed) : List OptionSpec → Except Usage Consumed
  | [] => .ok r
  | o :: rest =>
    if o.kind = .help then .error (.help c.usage)
    else c.takeSwitches (r.withSetting (.switch o.title)) rest

/-- What stands for no value of an option. -/
def noValue : String := "--"

/-- Takes an option with its value. -/
def takeValue (c : CommandSpec) (r : Consumed) (o : OptionSpec) (value : String) :
    Except Usage Consumed :=
  if o.kind = .assignment then
    if value = noValue then .ok (r.withSetting (.assignment none))
    else match Assignment.parse value with
      | .ok a => .ok (r.withSetting (.assignment (some a)))
      | .error fault => c.failAt o.title fault.message
  else .ok (r.withSetting (.text o.title (if value = noValue then none else some value)))

/-- Consumes marked arguments from left to right. -/
def consume (c : CommandSpec) (r : Consumed) : List (String × Mark) → Except Usage Consumed
  | [] => .ok r
  | (argument, .option none) :: rest => c.consume (r.withExtra argument) rest
  | (_, .option (some i)) :: rest => do
    let cluster ← Cluster.ofInterpretation c i
    match cluster.ending with
    | .nothing => c.consume (← c.takeSwitches r cluster.switches) rest
    | .value o value =>
      let r ← c.takeSwitches r cluster.switches
      c.consume (← c.takeValue r o (String.ofList value)) rest
    | .following o => match rest with
      | (value, .positional) :: rest =>
        let r ← c.takeSwitches r cluster.switches
        c.consume (← c.takeValue r o value) rest
      | _ => c.failAt o.title "expected one argument"
  | (argument, .positional) :: rest =>
    if c.greedy then .ok (r.withPositional (argument :: rest.map (·.1)))
    else if r.positional.isEmpty then
      match rest with
      | (_, .separator) :: rest => c.consume (r.withPositional [argument]) rest
      | rest => c.consume (r.withPositional [argument]) rest
    else c.consume (r.withExtra argument) rest
  | (argument, .separator) :: rest =>
    match rest with
    | [] => .ok (r.withExtra argument)
    | (next, mark) :: rest =>
      if c.greedy then .ok (r.withPositional (argument :: next :: rest.map (·.1)))
      else if r.positional.isEmpty then c.consume (r.withPositional [next]) rest
      else c.consume ((r.withExtra argument)) ((next, mark) :: rest)

/-- Reads the arguments of a command; the positional one is required. -/
def read (c : CommandSpec) (arguments : List String) : Except Usage Consumed := do
  let r ← c.consume .nothing (← Mark.ofArguments c arguments)
  if r.positional.isEmpty then
    c.fail ("the following arguments are required: " ++ c.positional)
  else .ok r

end CommandSpec

end PlonkGates
