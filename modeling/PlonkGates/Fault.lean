import PlonkGates.Equation.Basic
import PlonkGates.Gate.Wire
import PlonkGates.Text.ByteSize
import PlonkGates.Text.Template
import PlonkGates.Text.Utf8
import PlonkGates.Value

/-!
# Faults

Everything that can go wrong, as a cause with the data that its message shows. The wording is given
by `Fault.message` alone. A fault is `reported` to the user of the command line as an error of the
input; the others are errors of a caller, or of the compiler itself.

Messages spell numbers out. Those that are counted here are short, as are the lines and positions of
a program text. Numbers that a caller hands over (a line, a position, an index, a number of rows, a
value, the order of a field) may have more than `Text.digitLimit` digits: then there is no message,
and in the place of the fault its caller meets `Fault.tooLongToWrite`.
-/

namespace PlonkGates

open Text (quoted numeral)

/-! ## Programs -/

/-- What stands where a program cannot go on. -/
inductive Unexpected where
  | token (text : String)
  | character (c : Char)
  | endOfInput
deriving DecidableEq, Repr

def Unexpected.message : Unexpected → String
  | token text => "unexpected token " ++ quoted text
  | character c => "unexpected character " ++ quoted (String.ofList [c])
  | endOfInput => "unexpected end of input"

/-- A place in a program, with the text around it. -/
structure Place where
  line : Nat
  column : Nat
  context : String
deriving DecidableEq, Repr

/-- A broken rule on the shape of equations. -/
inductive Rule where
  | sameOperands (left right : String)
  | manyQuadratic (count : Nat)
  | manyNames (count : Nat)
  | manyWires (names : List String) (besideQuadratic : Bool)
  | repeatedLinear (name : String)
  | publicOnWire (name : String)
  | roleConflict (name : String) (other : Nat)
deriving DecidableEq, Repr

namespace Rule

/-- The rule in general terms. -/
def statement : Rule → String
  | sameOperands .. => "quadratic term multiplies a variable by itself"
  | manyQuadratic .. => "more than one quadratic term"
  | manyNames .. => "too many distinct variables for one gate"
  | manyWires .. => "too many distinct variables for one gate"
  | repeatedLinear .. => "variable repeated across linear terms"
  | publicOnWire .. => "public input also used as a wire variable"
  | roleConflict .. => "variable used both as public input and as wire variable"

/-- How the equation at hand breaks it. -/
def detail : Rule → String
  | sameOperands left right => quoted left ++ " * " ++ quoted right
  | manyQuadratic count => "found " ++ numeral count
  | manyNames count => numeral count ++ " distinct variables"
  | manyWires names besideQuadratic =>
    numeral names.length ++ " wire variables (" ++ ", ".intercalate names ++ ") for 3 wires" ++
      if besideQuadratic then "; beside a quadratic term only the output wire is free" else ""
  | repeatedLinear name => quoted name
  | publicOnWire name => quoted name
  | roleConflict name other => quoted name ++ " (see equation " ++ numeral other ++ ")"

end Rule

/-- A rule that the equation at position `index` breaks. -/
structure Violation where
  rule : Rule
  index : Int
  line : Option Int
deriving DecidableEq, Repr

def Violation.message (v : Violation) : String :=
  "equation " ++ numeral v.index ++
    (match v.line with
      | some line => " (line " ++ numeral line ++ ")"
      | none => "") ++
    ": " ++ v.rule.statement ++ ": " ++ v.rule.detail

/-! ## Gates -/

/-- How an expression and the variable table disagree. -/
inductive Divergence where
  | boundTwice (wire : Wire) (bound name : String)
  | manyLinear (count : Nat)
  | publicMissing (name : String)
  | notPublic (name : String)
  | noWitness (name : String)
  | gateCount (expressions gates : Nat)
  /-- The expression at position `index`, written `text`, is the one at fault. -/
  | inExpression (index : Nat) (text : String) (cause : Divergence)
deriving DecidableEq, Repr

def Divergence.message : Divergence → String
  | boundTwice wire bound name =>
    "wire " ++ wire.title ++ " already bound to " ++ quoted bound ++ ", cannot bind " ++ quoted name
  | manyLinear count => numeral count ++ " linear terms do not fit on 3 wires"
  | publicMissing name => "public input " ++ quoted name ++ " not in table"
  | notPublic name => quoted name ++ " is not a public input"
  | noWitness name => "wire variable " ++ quoted name ++ " has no witness"
  | gateCount expressions gates =>
    numeral expressions ++ " expressions produced " ++ numeral gates ++ " gates"
  | inExpression index text cause =>
    "expression " ++ numeral index ++ " (" ++ text ++ "): " ++ cause.message

/-! ## Settings, assignments and files -/

inductive SettingsFault where
  | modulusKind
  | modulusSmall
  | maximumKind
  | maximumNegative
  | logLevel
  | emptySuffix
  | unknownKeys (keys : List Text.CodePoints)
  | notFound (path : String)
  /-- What the reader of JSON says about the text is left out of the message. -/
  | notJson (path : String)
  | notObject (path : String)
deriving DecidableEq, Repr

def SettingsFault.message : SettingsFault → String
  | modulusKind => "field_modulus must be an integer"
  | modulusSmall => "field_modulus must be at least 2"
  | maximumKind => "max_coefficient must be an integer"
  | maximumNegative => "max_coefficient must not be negative"
  | logLevel => "log_level must be one of DEBUG, INFO, WARNING, ERROR, CRITICAL"
  | emptySuffix => "output_suffix must not be empty"
  | unknownKeys keys => "unknown configuration keys: " ++ ", ".intercalate (keys.map (·.shown))
  | notFound path => "Config file not found: " ++ path
  | notJson path => "Config file " ++ path ++ " is not valid JSON"
  | notObject path => "Config file " ++ path ++ " must hold a JSON object"

inductive AssignmentFault where
  | noEqualsSign (text : String)
  | emptyName (text : String)
  | notInteger (value : String)
deriving DecidableEq, Repr

def AssignmentFault.message : AssignmentFault → String
  | noEqualsSign text => "invalid NAME=VALUE: no `=` found in " ++ quoted text
  | emptyName text => "invalid NAME=VALUE: empty name in " ++ quoted text
  | notInteger value => "invalid NAME=VALUE: " ++ quoted value ++ " is not an integer"

/-- What encloses other values in a JSON text. -/
inductive JsonContainer where
  | array
  | object
deriving DecidableEq, Repr

def JsonContainer.title : JsonContainer → String
  | array => "array"
  | object => "object"

/-- What is nested too deep. -/
inductive Nesting where
  /-- Containers of a JSON text that is read. -/
  | reading (container : JsonContainer)
  /-- A step that is to be entered. -/
  | entering
  /-- What is done inside of a step. -/
  | stepping
deriving DecidableEq, Repr

def Nesting.message : Nesting → String
  | reading container =>
    "maximum recursion depth exceeded while decoding a JSON " ++ container.title ++
      " from a unicode string"
  | entering => "maximum recursion depth exceeded"
  | stepping => "maximum recursion depth exceeded while calling a Python object"

/-- Why a step on the disk fails. -/
inductive DiskError where
  | notFound
  | inputOutput
  | busy
  | fileExists
  | notDirectory
  | isDirectory
  | nameTooLong
deriving DecidableEq, Repr

def DiskError.number : DiskError → Nat
  | notFound => 2
  | inputOutput => 5
  | busy => 16
  | fileExists => 17
  | notDirectory => 20
  | isDirectory => 21
  | nameTooLong => 36

def DiskError.text : DiskError → String
  | notFound => "No such file or directory"
  | inputOutput => "Input/output error"
  | busy => "Device or resource busy"
  | fileExists => "File exists"
  | notDirectory => "Not a directory"
  | isDirectory => "Is a directory"
  | nameTooLong => "File name too long"

/-- A step on the disk that failed at a path, or while moving `path` to `target`. -/
structure DiskFault where
  error : DiskError
  path : Text.CodePoints
  target : Option Text.CodePoints
deriving DecidableEq, Repr

def DiskFault.message (f : DiskFault) : String :=
  "[Errno " ++ numeral f.error.number ++ "] " ++ f.error.text ++ ": " ++ f.path.quoted ++
    match f.target with
    | some target => " -> " ++ target.quoted
    | none => ""

/-! ## Tables -/

/-- A table of numbers that is asked for. -/
structure TableShape where
  rows : Nat
  columns : Nat
  /-- The word for the kind of its numbers. -/
  kind : String
deriving DecidableEq, Repr

namespace TableShape

/-- Every number takes eight bytes. -/
def bytes (t : TableShape) : Nat := 8 * t.rows * t.columns

end TableShape

/-- Why a table cannot be made. -/
inductive TableFault where
  /-- An index cannot count the rows. -/
  | tooManyRows
  /-- An index cannot count the bytes. -/
  | tooManyBytes
  | noMemory (shape : TableShape)
  /-- A table of so many rows is asked for a row behind the last. -/
  | noRow (row rows : Nat)
deriving DecidableEq, Repr

def TableFault.message : TableFault → String
  | tooManyRows => "Maximum allowed dimension exceeded"
  | tooManyBytes =>
    "array is too big; `arr.size * arr.dtype.itemsize` is larger than the maximum possible size."
  | noMemory shape =>
    "Unable to allocate " ++ Text.byteSize shape.bytes ++ " for an array with shape (" ++
      numeral shape.rows ++ ", " ++ numeral shape.columns ++ ") and data type " ++ shape.kind
  | noRow row rows =>
    "index " ++ numeral row ++ " is out of bounds for axis 0 with size " ++ numeral rows

/-! ## All faults -/

inductive Fault where
  /-- The program breaks its grammar. -/
  | unexpected (what : Unexpected) (place : Place)
  /-- The file with the program is not a text. -/
  | notUtf8 (path : String) (failure : Text.Utf8Failure)
  | badCoefficient (text : String) (line : Option Int)
  | violation (v : Violation)
  | noSuchValue (name : Value)
  | settings (cause : SettingsFault)
  | disk (cause : DiskFault)
  /-- The file with the settings is not a text. -/
  | undecodable (failure : Text.Utf8Failure)
  /-- A numeral is too long to be read. -/
  | tooManyDigits (count : Nat)
  /-- A number is too long to be written. -/
  | tooLongToWrite
  /-- A text where a number is needed is no numeral. -/
  | notANumeral (text : Text.CodePoints)
  | badTerm (term : Equation.Term)
  | divergence (cause : Divergence)
  | smallModulus
  | notANumber (kind : String)
  | foreignElement (x : Element) (field : PrimeField)
  | mixedFields (left right : PrimeField)
  /-- No arithmetic on values of these kinds. -/
  | operands (operator : String) (left right : String)
  | unaryOperand (kind : String)
  /-- No order between values of these kinds. -/
  | unorderedOperands (operator : String) (left right : String)
  /-- A value of this kind has no such feature. -/
  | noAttribute (kind name : String)
  /-- An integer is too large for a number of double precision. -/
  | doubleRange
  /-- A text that is reduced is no template for the order. -/
  | template (cause : Text.TemplateFault)
  /-- A text or a list is to be repeated as often as a value of this kind says. -/
  | repeatedTimes (kind : String)
  /-- A value of this kind is to be appended to a text. -/
  | textAppend (kind : String)
  /-- A value of this kind is to be appended to a list. -/
  | listAppend (kind : String)
  /-- A text or a list is to be repeated more often than an index can count. -/
  | tooManyRepeats
  /-- A repeated text has more characters than an index can count. -/
  | repeatedTooLong
  | noMemory
  /-- An integer has more digits than an index can count. -/
  | hugeInteger
  | circuitField (system circuit : PrimeField)
  | gateField (gate system : PrimeField)
  | unknownWitness (index : Int)
  | noSuchIndex
  /-- A circuit has no expression at this place. -/
  | noSuchExpression
  /-- An integer is no index at all. -/
  | indexRange
  /-- A value of this kind is no index. -/
  | indexKind (kind : String)
  | tooFewRows (gates : Nat) (rows : Int)
  | table (cause : TableFault)
  | negativeShift
  | missingKey (key : Value)
  /-- A value of this kind cannot be a key. -/
  | notAKey (kind : String)
  | assignment (cause : AssignmentFault)
  /-- A value was announced and none was given. -/
  | emptyAssignment
  | tooDeep (cause : Nesting)
  | nulInPath
  /-- A path holds surrogates that cannot be encoded. -/
  | unencodable (run : Text.SurrogateRun)
deriving Repr

namespace Fault

/-- How much of a text a message shows. -/
def excerptLength : Nat := 200

/-- The front of a text that may be long. -/
def excerpt (s : String) : String := String.ofList (s.toList.take excerptLength)

def message : Fault → String
  | unexpected what place =>
    what.message ++ " at line " ++ numeral place.line ++ ", column " ++ numeral place.column
  | notUtf8 path failure =>
    path ++ " is not valid UTF-8 (byte " ++ numeral failure.offset ++ ": " ++
      failure.reason.message ++ ")"
  | badCoefficient text line =>
    "invalid coefficient " ++ quoted text ++
      match line with
      | some line => " (line " ++ numeral line ++ ")"
      | none => ""
  | violation v => v.message
  | noSuchValue name => "no such value: " ++ name.display
  | settings cause => cause.message
  | disk cause => cause.message
  | undecodable failure =>
    "'utf-8' codec can't decode data in position " ++ numeral failure.offset ++ ": " ++
      failure.reason.message
  | tooManyDigits count =>
    "Exceeds the limit (4300 digits) for integer string conversion: value has " ++ numeral count ++
      " digits; use sys.set_int_max_str_digits() to increase the limit"
  | tooLongToWrite =>
    "Exceeds the limit (4300 digits) for integer string conversion; " ++
      "use sys.set_int_max_str_digits() to increase the limit"
  | notANumeral text => "invalid literal for int() with base 10: " ++ excerpt text.quoted
  | badTerm term => "term must reference one or two variables, got " ++ term.describe
  | divergence cause => cause.message
  | smallModulus => "Prime must be at least 2"
  | notANumber kind => "Expected an integer or field element, got " ++ kind
  | foreignElement x field => x.toText ++ " does not belong to " ++ field.toText
  | mixedFields left right =>
    "Cannot mix elements of Z_" ++ numeral left.order ++ " and Z_" ++ numeral right.order
  | operands operator left right =>
    "unsupported operand type(s) for " ++ operator ++ ": '" ++ left ++ "' and '" ++ right ++ "'"
  | unaryOperand kind => "bad operand type for unary -: '" ++ kind ++ "'"
  | unorderedOperands operator left right =>
    "'" ++ operator ++ "' not supported between instances of '" ++ left ++ "' and '" ++ right ++ "'"
  | noAttribute kind name => "'" ++ kind ++ "' object has no attribute '" ++ name ++ "'"
  | doubleRange => Text.TemplateFault.doubleRange.message
  | template cause => cause.message
  | repeatedTimes kind => "can't multiply sequence by non-int of type '" ++ kind ++ "'"
  | textAppend kind => "can only concatenate str (not \"" ++ kind ++ "\") to str"
  | listAppend kind => "can only concatenate list (not \"" ++ kind ++ "\") to list"
  | tooManyRepeats => "cannot fit 'int' into an index-sized integer"
  | repeatedTooLong => "repeated string is too long"
  | noMemory => ""
  | hugeInteger => "too many digits in integer"
  | circuitField system circuit =>
    "composer over " ++ system.toText ++ ", circuit over " ++ circuit.toText
  | gateField gate system =>
    "constraint over " ++ gate.toText ++ ", composer over " ++ system.toText
  | unknownWitness index =>
    "Witness(index=" ++ numeral index ++ ") was not appended to this composer"
  | noSuchIndex => "list index out of range"
  | noSuchExpression => "tuple index out of range"
  | indexRange => "cannot fit 'int' into an index-sized integer"
  | indexKind kind => "list indices must be integers or slices, not " ++ kind
  | tooFewRows gates rows =>
    "cannot pad " ++ numeral gates ++ " gates into " ++ numeral rows ++ " rows"
  | table cause => cause.message
  | negativeShift => "negative shift count"
  | missingKey key => key.display
  | notAKey kind => "unhashable type: '" ++ kind ++ "'"
  | assignment cause => cause.message
  | emptyAssignment => "not enough values to unpack (expected 2, got 0)"
  | tooDeep cause => cause.message
  | nulInPath => "embedded null byte"
  | unencodable run =>
    "'utf-8' codec can't encode " ++ run.describe ++ ": surrogates not allowed"

/-- Faults of the input, which the command line reports and survives. -/
def reported : Fault → Bool
  | unexpected .. => true
  | notUtf8 .. => true
  | badCoefficient .. => true
  | violation .. => true
  | noSuchValue .. => true
  | settings .. => true
  | disk .. => true
  | _ => false

end Fault

/-! ## Writing numbers -/

/-- The numeral of an integer, which may be too long to be written. -/
def Text.writeInteger (z : Int) : Except Fault String :=
  match numeral? z with
  | some s => .ok s
  | none => .error .tooLongToWrite

/-- A value as it is shown in an equation, if its numbers are not too long to be written. -/
def Value.write (v : Value) : Except Fault String :=
  if v.isWritable then .ok v.plain else .error .tooLongToWrite

end PlonkGates
