import PlonkGates.Text.Numeral

/-!
# Prime fields and their residues

The numbers of a circuit are residues modulo one number, the order of the field. That the order is
prime is assumed by a proving backend and plays no part here: the arithmetic is that of the integers
modulo the order.

A residue is kept as its least non-negative representative. It is shown as the representative that
is closest to zero, and encoded in little-endian bytes of a width that the field fixes.
-/

namespace PlonkGates

/-- The integers modulo `order`. -/
structure PrimeField where
  order : Nat
  two_le : 2 ≤ order
deriving DecidableEq, Repr

/-- A residue modulo the order of a field. -/
structure Residue where
  field : PrimeField
  value : Nat
  isLt : value < field.order
deriving DecidableEq, Repr

namespace PrimeField

theorem order_pos (F : PrimeField) : 0 < F.order := Nat.lt_of_lt_of_le (by decide) F.two_le

/-- The scalar field of the curve BLS12-381, in which gates live if no other field is asked for. -/
def blsScalar : PrimeField where
  order := 0x73eda753299d7d483339d80809a1d80553bda402fffe5bfeffffffff00000001
  two_le := by decide

/-- The residue of an integer. -/
def reduce (F : PrimeField) (z : Int) : Residue where
  field := F
  value := (z % F.order).toNat
  isLt := by
    have hpos : (0 : Int) < F.order := by exact_mod_cast F.order_pos
    have hlt := Int.emod_lt_of_pos z hpos
    have hnonneg := Int.emod_nonneg z (Int.ne_of_gt hpos)
    omega

@[simp] theorem reduce_field (F : PrimeField) (z : Int) : (F.reduce z).field = F := rfl

/-- The value of a residue is congruent to the integer that it comes from. -/
theorem reduce_value (F : PrimeField) (z : Int) : ((F.reduce z).value : Int) = z % F.order := by
  have hpos : (0 : Int) < F.order := by exact_mod_cast F.order_pos
  exact Int.toNat_of_nonneg (Int.emod_nonneg z (Int.ne_of_gt hpos))

def zero (F : PrimeField) : Residue := F.reduce 0

def one (F : PrimeField) : Residue := F.reduce 1

/-- How many binary digits a positive number has. -/
def bitLength (n : Nat) : Nat := n.log2 + 1

/-- The width of an encoded residue, enough for the order itself. -/
def byteLength (F : PrimeField) : Nat := max 1 ((bitLength F.order + 7) / 8)

def toText (F : PrimeField) : String := "PrimeField(" ++ Text.numeral F.order ++ ")"

end PrimeField

/-! ## Encoding -/

/-- The `width` lowest bytes of `n`, least significant first. -/
def littleEndian : Nat → Nat → List UInt8
  | 0, _ => []
  | width + 1, n => UInt8.ofNat (n % 256) :: littleEndian width (n / 256)

/-- The number that bytes stand for, least significant first. -/
def ofLittleEndian : List UInt8 → Nat
  | [] => 0
  | b :: bs => b.toNat + 256 * ofLittleEndian bs

@[simp] theorem length_littleEndian (width n : Nat) : (littleEndian width n).length = width := by
  induction width generalizing n with
  | zero => rfl
  | succ width ih => simp [littleEndian, ih]

namespace Residue

def isZero (x : Residue) : Bool := x.value == 0

/-- The representative closest to zero; the larger half of the residues is shown as negative. -/
def signed (x : Residue) : Int :=
  if x.value > x.field.order / 2 then (x.value : Int) - x.field.order else x.value

/-- The little-endian encoding in the width of the field. -/
def bytes (x : Residue) : List UInt8 := littleEndian x.field.byteLength x.value

/-- Negation in the field. -/
def neg (x : Residue) : Residue := x.field.reduce (-(x.value : Int))

end Residue

/-! ## Fingerprints

Equal fields have equal fingerprints. A fingerprint is taken modulo a Mersenne prime, so it may
coincide for orders that differ by a multiple of that prime.
-/

/-- Numbers that are congruent modulo this prime share their fingerprint. -/
def fingerprintModulus : Nat := Nat.pow 2 61 - 1

def PrimeField.fingerprint (F : PrimeField) : Nat := F.order % fingerprintModulus

end PlonkGates
