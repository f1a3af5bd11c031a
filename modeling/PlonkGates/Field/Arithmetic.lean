import PlonkGates.Fault
import PlonkGates.Limits

/-!
# Arithmetic in a field

Supplied values enter a field as elements, and elements combine with one another and with plain
integers. The integer may stand on either side. Elements of different fields never combine. A text
among the operands is repeated or joined as a text, and the result is put into the field anew.
-/

namespace PlonkGates

namespace PrimeField

/-- The field of integers modulo `n`, if `n` is at least 2. -/
def ofInt (n : Int) : Except Fault PrimeField :=
  if h : n < 2 then .error .smallModulus else .ok ⟨n.toNat, by omega⟩

/-- The field whose order is supplied as a value. A fraction passes only the test of its size. -/
def ofValue (v : Value) : Except Fault PrimeField :=
  match v.integer?, v with
  | some n, _ => ofInt n
  | none, .real x =>
    .error (if x.lessThanInt 2 then .smallModulus else .noAttribute v.kind "bit_length")
  | none, _ => .error (.unorderedOperands "<" v.kind "int")

/-- A supplied value as an element of the field: an integer, or an element that is already in it. -/
def element (F : PrimeField) : Value → Except Fault Element
  | .element x => if x.field = F then .ok x else .error (.foreignElement x F)
  | .int n => .ok (.number (F.reduce n))
  | v => .error (.notANumber v.kind)

/-- Why a fraction is no element: it cannot be encoded. As elements hold residues and texts alone,
this comes up when the element is made, and not only when it is encoded. -/
def fractionFault (F : PrimeField) : Fault :=
  if Double.exceeds F.order then .doubleRange else .noAttribute "float" "to_bytes"

end PrimeField

/-! ## Repetition -/

/-- An integer that is no index cannot count. -/
def countable (n : Int) : Except Fault Nat :=
  if n > Limits.index ∨ n < -(Limits.index : Int) - 1 then .error .tooManyRepeats else .ok n.toNat

/-- How often a text is repeated, if there is room for the result. -/
def repeatsOfText (text : String) (n : Int) : Except Fault Nat := do
  let times ← countable n
  let size := times * text.length
  if size > Limits.index then .error .repeatedTooLong
  else if size > Limits.memory then .error .noMemory
  else .ok times

/-- How often a list is repeated, if there is room for the result. -/
def repeatsOfList (items : List Value) (n : Int) : Except Fault Nat := do
  let times ← countable n
  if 8 * times * items.length > Limits.memory then .error .noMemory else .ok times

/-! ## Results -/

namespace PrimeField

/--
The element of a text that is repeated. It is taken for a template of the order, and with the order
put in it is a text again.
-/
def elementOfText (F : PrimeField) (text : String) (n : Int) : Except Fault Element := do
  let times ← repeatsOfText text n
  match Text.Template.ofRepeated text.toList times F.order with
  | .ok content => .ok (.text F content)
  | .error cause => .error (.template cause)

/-- The element of whatever counts as an integer in plain arithmetic, or of a text. -/
def elementOf (F : PrimeField) (v : Value) : Except Fault Element :=
  match v.integer?, v with
  | some n, _ => .ok (.number (F.reduce n))
  | none, .text s => F.elementOfText s 1
  | none, .real _ => .error F.fractionFault
  | none, _ => .error (.operands "%" v.kind "int")

/-- The element of what an operation makes of two integers. -/
def combine (F : PrimeField) (operator : String) (f : Int → Int → Int) (v w : Value) :
    Except Fault Element :=
  match v.integer?, w.integer? with
  | some m, some n => .ok (.number (F.reduce (f m n)))
  | _, _ =>
    .error (if v.isPlainNumber && w.isPlainNumber then F.fractionFault
      else .operands operator v.kind w.kind)

/-- The element of a sum. Texts are joined. -/
def sum (F : PrimeField) (v w : Value) : Except Fault Element :=
  match v, w with
  | .text s, .text t => F.elementOfText (s ++ t) 1
  | .text _, w => .error (.textAppend w.kind)
  | v, w => F.combine "+" (· + ·) v w

/-- The element of a difference. -/
def difference (F : PrimeField) (v w : Value) : Except Fault Element := F.combine "-" (· - ·) v w

/-- The element of a product. A text is repeated; a list as well, and then there is no element. -/
def product (F : PrimeField) (v w : Value) : Except Fault Element :=
  match v.integer?, v, w.integer?, w with
  | _, .text s, some n, _ => F.elementOfText s n
  | _, .text _, none, w => .error (.repeatedTimes w.kind)
  | some n, _, _, .text s => F.elementOfText s n
  | some n, _, _, .list items => do
    let _ ← repeatsOfList items n
    .error (.operands "%" "list" "int")
  | _, v, _, w => F.combine "*" (· * ·) v w

end PrimeField

/-! ## Elements -/

/-- The plain value that stands for an operand in a field. An element has to be of that field. -/
def Value.within (F : PrimeField) : Value → Except Fault Value
  | .element x => if x.field = F then .ok x.content else .error (.mixedFields F x.field)
  | v => .ok v

namespace Element

def add (x : Element) (v : Value) : Except Fault Element := do
  x.field.sum x.content (← v.within x.field)

def sub (x : Element) (v : Value) : Except Fault Element := do
  x.field.difference x.content (← v.within x.field)

def mul (x : Element) (v : Value) : Except Fault Element := do
  x.field.product x.content (← v.within x.field)

def neg : Element → Except Fault Element
  | number x => .ok (.number x.neg)
  | text .. => .error (.unaryOperand "str")

/-- The representative closest to zero. A text cannot be compared with zero. -/
def signed : Element → Except Fault Int
  | number x => .ok x.signed
  | text .. => .error (.unorderedOperands ">" "str" "int")

/-- The encoding of a residue. -/
def bytes : Element → Except Fault (List UInt8)
  | number x => .ok x.bytes
  | text .. => .error (.noAttribute "str" "to_bytes")

/-- The integer that an element is read as: its residue, or the one that its text spells out. -/
def integer : Element → Except Fault Int
  | number x => .ok x.value
  | text F content =>
    let s := content.fill F.order
    match Text.readInteger s.toChars with
    | .ok z => .ok z
    | .error .malformed => .error (.notANumeral s)
    | .error (.tooManyDigits count) => .error (.tooManyDigits count)

end Element

/-! ## Mixed operands -/

namespace Value

/-- The element that a value is. -/
def asElement : Value → Except Fault Element
  | element x => .ok x
  | v => .error (.noAttribute v.kind "value")

/-- An operation on two numbers neither of which is an element. Fractions never become elements. -/
def plainOperation (operator : String) (f : Int → Int → Int) (v w : Value) : Except Fault Value :=
  match v.integer?, w.integer? with
  | some m, some n => .ok (.int (f m n))
  | _, _ =>
    if v.isPlainNumber && w.isPlainNumber then
      .error (if v.isHugeInteger || w.isHugeInteger then .doubleRange
        else .noAttribute "float" "value")
    else .error (.operands operator v.kind w.kind)

/-- The sum of two values neither of which is an element. Texts and lists are joined. -/
def plainSum (v w : Value) : Except Fault Value :=
  match v, w with
  | .text _, .text _ => .error (.noAttribute "str" "value")
  | .text _, w => .error (.textAppend w.kind)
  | .list _, .list _ => .error (.noAttribute "list" "value")
  | .list _, w => .error (.listAppend w.kind)
  | v, w => plainOperation "+" (· + ·) v w

/-- The outcome of repeating a text or a list: it is no element. -/
def plainRepetition (v count : Value) : Except Fault Value :=
  match count.integer?, v with
  | some n, .text s => do
    let _ ← repeatsOfText s n
    .error (.noAttribute "str" "value")
  | some n, .list items => do
    let _ ← repeatsOfList items n
    .error (.noAttribute "list" "value")
  | _, _ => .error (.repeatedTimes count.kind)

/-- The product of two values neither of which is an element. -/
def plainProduct (v w : Value) : Except Fault Value :=
  match v, w with
  | .text s, w => plainRepetition (.text s) w
  | .list items, w => plainRepetition (.list items) w
  | v, .text s => plainRepetition (.text s) v
  | v, .list items => plainRepetition (.list items) v
  | v, w => plainOperation "*" (· * ·) v w

/-- The sum, taken in the field as soon as one operand is an element. -/
def add : Value → Value → Except Fault Value
  | .element x, w => (x.add w).map .element
  | v, .element y => (y.add v).map .element
  | v, w => plainSum v w

def sub : Value → Value → Except Fault Value
  | .element x, w => (x.sub w).map .element
  | v, .element y => (y.field.difference v y.content).map .element
  | v, w => plainOperation "-" (· - ·) v w

def mul : Value → Value → Except Fault Value
  | .element x, w => (x.mul w).map .element
  | v, .element y => (y.mul v).map .element
  | v, w => plainProduct v w

def neg : Value → Except Fault Value
  | .element x => x.neg.map .element
  | .real _ => .error (.noAttribute "float" "value")
  | v => match v.integer? with
    | some n => .ok (.int (-n))
    | none => .error (.unaryOperand v.kind)

end Value

end PlonkGates
