import PlonkGates.Expression.Basic
import PlonkGates.Fault

/-!
# Fingerprints

A fingerprint stands for a value in quick comparisons: equal numbers have the same one, and so have
equal texts. Numbers that are congruent modulo a Mersenne prime share theirs, and so do minus one
and minus two. Lists and objects have none.
-/

namespace PlonkGates

inductive Fingerprint where
  | number (n : Int)
  | text (s : String)
  | null
  | element (value order : Nat)
  | textElement (s : String) (order : Nat)
  /-- The fingerprint of what equals nothing. -/
  | unique
deriving DecidableEq, Repr

namespace Fingerprint

/-- Whether two fingerprints coincide. -/
def agrees : Fingerprint → Fingerprint → Bool
  | unique, _ => false
  | x, y => x == y

/-- The fingerprint of a number with a remainder. There is none for minus one. -/
def ofRemainder (negative : Bool) (n : Nat) : Fingerprint :=
  if !negative then number n
  else if n = 1 then number (-2)
  else number (-(n : Int))

def ofInt (z : Int) : Fingerprint := ofRemainder (z < 0) (z.natAbs % fingerprintModulus)

/-- The fingerprint of infinity. -/
def infinity : Nat := 314159

/--
A magnitude is divided by `2 ^ scale`. As `2 ^ 61` is congruent to one, that is a multiplication by
the power of two that fills `scale` up to a multiple of 61.
-/
def ofUnits (negative : Bool) (units : Nat) : Fingerprint :=
  ofRemainder negative (units * Nat.pow 2 (61 * 18 - Double.scale) % fingerprintModulus)

def ofDouble : Double → Fingerprint
  | .nan => unique
  | .infinity negative => ofRemainder negative infinity
  | .finite negative units => ofUnits negative units

/-- The empty text has the fingerprint of zero. -/
def ofText (s : String) : Fingerprint := if s.isEmpty then number 0 else text s

/-- The fingerprint of an element; one that holds the empty text has that of zero. -/
def ofElement : Element → Fingerprint
  | .number x => element (x.value % fingerprintModulus) x.field.fingerprint
  | .text field content =>
    let s := (content.fill field.order).toText
    if s.isEmpty then element 0 field.fingerprint else textElement s field.fingerprint

/-- The fingerprint of a supplied value. -/
def ofValue : Value → Except Fault Fingerprint
  | .null => .ok null
  | .bool b => .ok (ofInt (if b then 1 else 0))
  | .int n => .ok (ofInt n)
  | .real x => .ok (ofDouble x)
  | .text s => .ok (ofText s)
  | .codePoints t => .ok (ofText t.toText)
  | .element x => .ok (ofElement x)
  | .list items => .error (.notAKey (Value.list items).kind)
  | .object entries => .error (.notAKey (Value.object entries).kind)

end Fingerprint

/-- Whether the fingerprints of two values coincide. -/
def Value.sameFingerprint (v w : Value) : Except Fault Bool := do
  let x ← Fingerprint.ofValue v
  let y ← Fingerprint.ofValue w
  .ok (x.agrees y)

namespace Expression

/-- Whether two expressions differ in nothing but their coefficients. -/
def sameShape (d e : Expression) : Bool :=
  d.quadratic.map (fun t => (t.negative, t.left, t.right)) ==
    e.quadratic.map (fun t => (t.negative, t.left, t.right)) &&
  d.linear.map (fun t => (t.negative, t.name)) == e.linear.map (fun t => (t.negative, t.name)) &&
  d.rhs == e.rhs

/-- Whether the fingerprints of two expressions coincide, wherever they were read. -/
def sameFingerprint (d e : Expression) : Except Fault Bool := do
  let xs ← d.coefficients.mapM Fingerprint.ofValue
  let ys ← e.coefficients.mapM Fingerprint.ofValue
  .ok (d.sameShape e && (xs.zip ys).all fun (x, y) => x.agrees y)

end Expression

end PlonkGates
