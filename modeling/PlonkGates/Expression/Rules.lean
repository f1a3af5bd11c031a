import PlonkGates.Expression.Basic
import PlonkGates.Fault
import PlonkGates.Text.Names

/-!
# Rules on the shape of a program

A gate has three wires and one public slot, so an equation is accepted only if it fits that shape.
The rules are looked at one after the other, each over the whole program:

1. a quadratic term multiplies two different variables;
2. an equation has at most four variables, and at most three of them on wires;
3. no variable occurs in two linear terms of an equation;
4. the public input of an equation is on none of its wires;
5. no variable is a public input in one equation and on a wire in another.

The violation that is reported is the first one of the first rule that is broken.
-/

namespace PlonkGates

/-- How many different variables an equation may have. -/
def maxNames : Nat := 4

/-- How many of them may be on wires. -/
def wireCount : Nat := 3

namespace Expression

/-! ## Rules for one equation -/

def brokenOperands (e : Expression) : Option Rule :=
  match e.quadratic with
  | some t => if t.left = t.right then some (.sameOperands t.left t.right) else none
  | none => none

def brokenCount (e : Expression) : Option Rule :=
  let all := Text.sortNames e.names
  let wires := Text.sortNames e.wireNames
  if all.length > maxNames then some (.manyNames all.length)
  else if wires.length > wireCount then some (.manyWires wires e.quadratic.isSome)
  else none

/-- The first name that also stands before it, or among `seen`. -/
def firstRepeated (seen : List String) : List String → Option String
  | [] => none
  | x :: xs => if x ∈ seen then some x else firstRepeated (x :: seen) xs

def brokenLinear (e : Expression) : Option Rule :=
  (firstRepeated [] (e.linear.map (·.name))).map .repeatedLinear

def brokenPublic (e : Expression) : Option Rule :=
  match e.rhs with
  | some p => if p.name ∈ e.wireNames then some (.publicOnWire p.name) else none
  | none => none

/-- The first expression that breaks a rule; `index` is the position of the first one looked at. -/
def firstBroken (rule : Expression → Option Rule) (index : Nat) :
    List Expression → Option Violation
  | [] => none
  | e :: es => match rule e with
    | some broken => some ⟨broken, index, e.line⟩
    | none => firstBroken rule (index + 1) es

/-! ## The rule across equations -/

/-- The position of the first equation with this public input. -/
def publicAt (es : List Expression) (name : String) : Option Nat :=
  es.findIdx? fun e => e.rhs.any (·.name = name)

/-- The position of the first equation with this variable on a wire. -/
def wireAt (es : List Expression) (name : String) : Option Nat :=
  es.findIdx? fun e => name ∈ e.wireNames

/-- A name with two roles, and where each of them first shows up. -/
structure Conflict where
  name : String
  later : Nat
  earlier : Nat
deriving DecidableEq, Repr

/-- The names with two roles, in their order. -/
def conflicts (es : List Expression) : List Conflict :=
  let wires := es.flatMap (·.wireNames)
  let publics := es.filterMap fun e => e.rhs.map (·.name)
  (Text.sortNames (publics.filter (· ∈ wires))).filterMap fun name =>
    match publicAt es name, wireAt es name with
    | some p, some w => some ⟨name, max p w, min p w⟩
    | _, _ => none

/-- The conflict that shows up first; of several in one equation the one with the first name. -/
def earliest : List Conflict → Option Conflict
  | [] => none
  | c :: cs => match earliest cs with
    | some d => if d.later < c.later then some d else some c
    | none => some c

def brokenRoles (es : List Expression) : Option Violation :=
  (earliest (conflicts es)).map fun c =>
    ⟨.roleConflict c.name c.earlier, c.later, (es[c.later]?).bind (·.line)⟩

/-! ## All rules -/

/-- The violation that is reported for a program. -/
def violation? (es : List Expression) : Option Violation :=
  firstBroken brokenOperands 0 es <|> firstBroken brokenCount 0 es <|>
    firstBroken brokenLinear 0 es <|> firstBroken brokenPublic 0 es <|> brokenRoles es

/-- Accepts a program that breaks no rule. -/
def validate (es : List Expression) : Except Fault Unit :=
  match violation? es with
  | some v => .error (.violation v)
  | none => .ok ()

end Expression

end PlonkGates
