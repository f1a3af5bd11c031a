import PlonkGates.Field.Basic
import PlonkGates.Text.Template

/-!
# Elements of a field

Selectors, witnesses and public inputs are elements of one field. An element holds a residue. One
that is made of a text holds a text instead: a template with the order of the field put in. Such an
element can be kept and shown like any other, and fails where a number is needed.
-/

namespace PlonkGates

inductive Element where
  | number (x : Residue)
  | text (field : PrimeField) (content : Text.Template)
deriving DecidableEq, Repr

namespace Element

def field : Element → PrimeField
  | number x => x.field
  | text F _ => F

/-- What an element holds, as it is written in equations and tables. -/
def plain : Element → String
  | number x => Text.numeral x.value
  | text F content => (content.fill F.order).toText

/-- Whether `plain` can be written: it may be a number of too many digits. -/
def isWritable : Element → Bool
  | number x => Text.IsShort x.value
  | text .. => true

/-- How an element is shown in messages, with its field. -/
def toText (x : Element) : String :=
  "FieldElement(" ++ x.plain ++ ", mod " ++ Text.numeral x.field.order ++ ")"

/-- Whether `toText` can be written. -/
def isDisplayable (x : Element) : Bool := x.isWritable && Text.IsShort x.field.order

/-- Whether an element is zero. No text is. -/
def isZero : Element → Bool
  | number x => x.isZero
  | text .. => false

/-- Whether two elements hold the same in the same field. Texts count as they are written. -/
def same : Element → Element → Bool
  | number x, number y => x == y
  | text F s, text G t => F == G && s.fill F.order == t.fill G.order
  | _, _ => false

/-- Whether an element is the residue of an integer. -/
def equalsInt (x : Element) (z : Int) : Bool := x.same (.number (x.field.reduce z))

@[simp] theorem field_number (x : Residue) : (number x).field = x.field := rfl

end Element

end PlonkGates
