import PlonkGates.Assignment
import PlonkGates.Circuit.Basic
import PlonkGates.Circuit.Listing
import PlonkGates.Circuit.Lowering
import PlonkGates.CommandLine.Invocation
import PlonkGates.CommandLine.Options
import PlonkGates.Copying
import PlonkGates.Disk.Basic
import PlonkGates.Disk.Load
import PlonkGates.Disk.Path
import PlonkGates.Disk.Tree
import PlonkGates.Disk.Write
import PlonkGates.Double.Basic
import PlonkGates.Double.Shortest
import PlonkGates.Equation.Basic
import PlonkGates.Equation.Lexeme
import PlonkGates.Equation.Parser
import PlonkGates.Expression.Basic
import PlonkGates.Expression.OfEquation
import PlonkGates.Expression.Rules
import PlonkGates.Fault
import PlonkGates.Field.Arithmetic
import PlonkGates.Field.Basic
import PlonkGates.Field.Element
import PlonkGates.Fingerprint
import PlonkGates.Gate.Assembly
import PlonkGates.Gate.Basic
import PlonkGates.Gate.Layout
import PlonkGates.Gate.Wire
import PlonkGates.Json.Reader
import PlonkGates.Json.Writer
import PlonkGates.Limits
import PlonkGates.Log
import PlonkGates.Main
import PlonkGates.Mapping
import PlonkGates.Proofs.Assembly
import PlonkGates.Proofs.Atomicity
import PlonkGates.Proofs.Calculations
import PlonkGates.Proofs.Checking
import PlonkGates.Proofs.Commands
import PlonkGates.Proofs.Compiling
import PlonkGates.Proofs.Composition
import PlonkGates.Proofs.Cutting
import PlonkGates.Proofs.Documents
import PlonkGates.Proofs.Encoding
import PlonkGates.Proofs.FeedingBack
import PlonkGates.Proofs.FirstFault
import PlonkGates.Proofs.Grammar
import PlonkGates.Proofs.History
import PlonkGates.Proofs.Layout
import PlonkGates.Proofs.JsonIntegers
import PlonkGates.Proofs.JsonRoundtrip
import PlonkGates.Proofs.LineEnds
import PlonkGates.Proofs.Listings
import PlonkGates.Proofs.Literals
import PlonkGates.Proofs.Lowering
import PlonkGates.Proofs.Meaning
import PlonkGates.Proofs.Normalising
import PlonkGates.Proofs.Numerals
import PlonkGates.Proofs.Outcome
import PlonkGates.Proofs.PaddedTables
import PlonkGates.Proofs.Parsing
import PlonkGates.Proofs.Places
import PlonkGates.Proofs.PlainTexts
import PlonkGates.Proofs.Precedence
import PlonkGates.Proofs.Privacy
import PlonkGates.Proofs.Recording
import PlonkGates.Proofs.RenamedCircuits
import PlonkGates.Proofs.RenamedPrograms
import PlonkGates.Proofs.RenamedTables
import PlonkGates.Proofs.Rendering
import PlonkGates.Proofs.Reordering
import PlonkGates.Proofs.Residue
import PlonkGates.Proofs.Roles
import PlonkGates.Proofs.Rules
import PlonkGates.Proofs.Satisfaction
import PlonkGates.Proofs.Sentences
import PlonkGates.Proofs.SettingsFile
import PlonkGates.Proofs.Stages
import PlonkGates.Proofs.Supply
import PlonkGates.Proofs.Systems
import PlonkGates.Proofs.Table
import PlonkGates.Proofs.Unexpected
import PlonkGates.Proofs.Units
import PlonkGates.Proofs.Utf8
import PlonkGates.Proofs.Verdict
import PlonkGates.Proofs.Wiring
import PlonkGates.Proofs.Writing
import PlonkGates.Session
import PlonkGates.Settings
import PlonkGates.System
import PlonkGates.Text.Blank
import PlonkGates.Text.ByteSize
import PlonkGates.Text.CodePoints
import PlonkGates.Text.Digit
import PlonkGates.Text.Names
import PlonkGates.Text.Newline
import PlonkGates.Text.Numeral
import PlonkGates.Text.Place
import PlonkGates.Text.Printable
import PlonkGates.Text.Quoted
import PlonkGates.Text.Scientific
import PlonkGates.Text.Template
import PlonkGates.Text.Uppercase
import PlonkGates.Text.Utf8
import PlonkGates.Value
import PlonkGates.Variable
