import PlonkGates.Double.Shortest
import PlonkGates.Field.Element
import PlonkGates.Text.Quoted

/-!
# Supplied values

Coefficients, witness values, settings and names reach the compiler from outside, so they may be of
any kind. Only integers and elements of the right field become numbers of a circuit; the rest is
turned down with the name of its kind.
-/

namespace PlonkGates

/-- A value as it is supplied: plain data, or an element of some field. -/
inductive Value where
  | null
  | bool (b : Bool)
  | int (n : Int)
  /-- A number with a fraction or an exponent. -/
  | real (x : Double)
  | text (s : String)
  /-- A text that is no `String`, because it holds a surrogate. -/
  | codePoints (t : Text.CodePoints)
  | list (items : List Value)
  /-- Keys are distinct and in the order of their first mention. -/
  | object (entries : List (Text.CodePoints × Value))
  | element (x : Element)
deriving Repr

instance : Inhabited Value := ⟨.null⟩

namespace Value

def ofCodePoints (t : Text.CodePoints) : Value :=
  if t.holdsSurrogate then codePoints t else text t.toText

/-- The word for the kind of a value in messages. -/
def kind : Value → String
  | null => "NoneType"
  | bool _ => "bool"
  | int _ => "int"
  | real _ => "float"
  | text _ => "str"
  | codePoints _ => "str"
  | list _ => "list"
  | object _ => "dict"
  | element _ => "FieldElement"

mutual

/-- How a value is shown inside a message, with quotes around a text. -/
def display : Value → String
  | null => "None"
  | bool b => if b then "True" else "False"
  | int n => Text.numeral n
  | real x => x.toText
  | text s => Text.quoted s
  | codePoints t => t.quoted
  | list items => "[" ++ displayItems items ++ "]"
  | object entries => "\x7b" ++ displayEntries entries ++ "\x7d"
  | element x => x.toText

def displayItems : List Value → String
  | [] => ""
  | [v] => display v
  | v :: rest => display v ++ ", " ++ displayItems rest

def displayEntries : List (Text.CodePoints × Value) → String
  | [] => ""
  | [(k, v)] => k.quoted ++ ": " ++ display v
  | (k, v) :: rest => k.quoted ++ ": " ++ display v ++ ", " ++ displayEntries rest

end

mutual

/-- Whether `display` can be written: there may be numbers of too many digits in it. -/
def isDisplayable : Value → Bool
  | int n => Text.IsShort n
  | list items => areDisplayable items
  | object entries => entriesDisplayable entries
  | element x => x.isDisplayable
  | _ => true

def areDisplayable : List Value → Bool
  | [] => true
  | v :: rest => isDisplayable v && areDisplayable rest

def entriesDisplayable : List (Text.CodePoints × Value) → Bool
  | [] => true
  | (_, v) :: rest => isDisplayable v && entriesDisplayable rest

end

/-- How a value is shown as part of an equation: a text as it is, an element by what it holds. -/
def plain : Value → String
  | text s => s
  | codePoints t => t.toText
  | element x => x.plain
  | v => display v

/-- Whether `plain` can be written. -/
def isWritable : Value → Bool
  | element x => x.isWritable
  | v => v.isDisplayable

/-- The integer that a value stands for in plain arithmetic; a truth value counts as 0 or 1. -/
def integer? : Value → Option Int
  | int n => some n
  | bool b => some (if b then 1 else 0)
  | _ => none

/-- Whether a value is a number of plain arithmetic. -/
def isPlainNumber : Value → Bool
  | real _ => true
  | v => v.integer?.isSome

/-- Whether a value is an integer too large for double precision. -/
def isHugeInteger (v : Value) : Bool := v.integer?.any fun n => Double.exceeds n.natAbs

/-- Whether a value equals one. -/
def isOne : Value → Bool
  | int n => n == 1
  | bool b => b
  | real x => x.equalsInt 1
  | element x => x.equalsInt 1
  | _ => false

/-- Nothing, falsehood, zero, and empty texts, lists and objects. -/
def isVoid : Value → Bool
  | null => true
  | bool b => !b
  | int n => n == 0
  | real x => x.equalsInt 0
  | text s => s.isEmpty
  | codePoints t => t.isEmpty
  | list items => items.isEmpty
  | object entries => entries.isEmpty
  | element _ => false

mutual

/--
Equality of supplied values. An element equals another one of the same field that holds the same,
and an integer (not a truth value) with its residue; a truth value equals the integer it counts as,
and numbers are compared by their values.
-/
def same : Value → Value → Bool
  | null, null => true
  | text s, text t => s == t
  | codePoints s, codePoints t => s == t
  | real x, real y => x.same y
  | real x, int n => x.equalsInt n
  | int n, real x => x.equalsInt n
  | real x, bool b => x.equalsInt (if b then 1 else 0)
  | bool b, real x => x.equalsInt (if b then 1 else 0)
  | list xs, list ys => sameItems xs ys
  | object xs, object ys => sameEntries xs ys
  | element x, element y => x.same y
  | element x, int n => x.equalsInt n
  | int n, element x => x.equalsInt n
  | int m, int n => m == n
  | bool b, int n => (if b then 1 else 0) == n
  | int n, bool b => (if b then 1 else 0) == n
  | bool b, bool c => b == c
  | _, _ => false

def sameItems : List Value → List Value → Bool
  | [], [] => true
  | x :: xs, y :: ys => same x y && sameItems xs ys
  | _, _ => false

def sameEntries : List (Text.CodePoints × Value) → List (Text.CodePoints × Value) → Bool
  | [], [] => true
  | (k, x) :: xs, (l, y) :: ys => k == l && same x y && sameEntries xs ys
  | _, _ => false

end

/-- The entries with `k` bound to `v`; a key that is present keeps its place. -/
def putEntry (k : Text.CodePoints) (v : Value) :
    List (Text.CodePoints × Value) → List (Text.CodePoints × Value)
  | [] => [(k, v)]
  | (l, w) :: rest => if l = k then (k, v) :: rest else (l, w) :: putEntry k v rest

end Value

/-- What an element holds, as a plain value. -/
def Element.content : Element → Value
  | number x => .int x.value
  | text F content => .text (content.fill F.order).toText

end PlonkGates
