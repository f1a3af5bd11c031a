import Mathlib.Data.Int.ModEq
import PlonkGates.Field.Arithmetic
import PlonkGates.Gate.Basic
import PlonkGates.Proofs.Outcome

/-!
# Residues are integers modulo the order

Every residue is the reduction of an integer, and the operations on elements that hold residues are
those of the integers followed by a reduction. So the value of a gate is a polynomial over the
integers, reduced once at the end (`evaluate_reduce`), wherever the reductions happen on the way.
-/

namespace PlonkGates

namespace PrimeField

variable {F : PrimeField} {a b : Int}

/-- **Integers have the same residue exactly if they are congruent.** -/
theorem eq_iff_order {G : PrimeField} : F = G ↔ F.order = G.order := by
  cases F
  cases G
  simp

theorem reduce_eq_iff : F.reduce a = F.reduce b ↔ a ≡ b [ZMOD F.order] := by
  constructor
  · intro h
    rw [Int.ModEq, ← F.reduce_value, ← F.reduce_value, h]
  · intro h
    simp only [reduce, h.eq]

theorem reduce_congr (h : a ≡ b [ZMOD F.order]) : F.reduce a = F.reduce b := reduce_eq_iff.mpr h

/-- The value of a residue is congruent to every integer that it is the residue of. -/
theorem reduce_value_modEq : ((F.reduce a).value : Int) ≡ a [ZMOD F.order] := by
  rw [F.reduce_value]
  exact Int.mod_modEq a F.order

theorem reduce_value_residue (x : Residue) : x.field.reduce x.value = x := by
  have hlt : (x.value : Int) < x.field.order := by exact_mod_cast x.isLt
  have hvalue : (x.value : Int) % x.field.order = x.value := Int.emod_eq_of_lt (by omega) hlt
  cases x with
  | mk field value isLt => simp_all [reduce]

theorem reduce_isZero : (F.reduce a).isZero = true ↔ (F.order : Int) ∣ a := by
  have hvalue := F.reduce_value a
  rw [Residue.isZero, beq_iff_eq, Int.dvd_iff_emod_eq_zero]
  omega

theorem neg_reduce : (F.reduce a).neg = F.reduce (-a) := reduce_congr reduce_value_modEq.neg

end PrimeField

/-! ## The representative closest to zero -/

namespace Residue

/-- **The representative that is shown lies in the half-open window around zero.** -/
theorem signed_window (x : Residue) :
    -(x.field.order : Int) < 2 * x.signed ∧ 2 * x.signed ≤ x.field.order := by
  have hlt := x.isLt
  unfold signed
  split <;> constructor <;> omega

theorem signed_modEq (x : Residue) : x.signed ≡ x.value [ZMOD x.field.order] := by
  unfold signed
  split
  · rw [Int.modEq_iff_dvd]
    exact ⟨1, by omega⟩
  · exact Int.ModEq.refl _

theorem signed_eq_zero_iff (x : Residue) : x.signed = 0 ↔ x.isZero = true := by
  have hlt := x.isLt
  rw [isZero, beq_iff_eq, signed]
  split <;> omega

end Residue

theorem PrimeField.signed_reduce_modEq (F : PrimeField) (a : Int) :
    (F.reduce a).signed ≡ a [ZMOD F.order] :=
  (F.reduce a).signed_modEq.trans PrimeField.reduce_value_modEq

/-! ## Elements that hold residues -/

namespace Element

variable {F : PrimeField} {a b : Int}

@[simp] theorem add_reduce :
    (number (F.reduce a)).add (.element (.number (F.reduce b))) =
      .ok (.number (F.reduce (a + b))) := by
  have hsum : F.reduce ((F.reduce a).value + (F.reduce b).value) = F.reduce (a + b) :=
    PrimeField.reduce_congr (PrimeField.reduce_value_modEq.add PrimeField.reduce_value_modEq)
  simp [add, Value.within, content, PrimeField.sum, PrimeField.combine, Value.integer?, hsum]

@[simp] theorem mul_reduce :
    (number (F.reduce a)).mul (.element (.number (F.reduce b))) =
      .ok (.number (F.reduce (a * b))) := by
  have hmul : F.reduce ((F.reduce a).value * (F.reduce b).value) = F.reduce (a * b) :=
    PrimeField.reduce_congr (PrimeField.reduce_value_modEq.mul PrimeField.reduce_value_modEq)
  simp [mul, Value.within, content, PrimeField.product, PrimeField.combine, Value.integer?, hmul]

@[simp] theorem neg_reduce : (number (F.reduce a)).neg = .ok (.number (F.reduce (-a))) := by
  rw [neg, PrimeField.neg_reduce]

theorem isZero_reduce : (number (F.reduce a)).isZero = true ↔ (F.order : Int) ∣ a :=
  PrimeField.reduce_isZero

/-- The integer that an element stands for; a text stands for none, and counts as zero. -/
def toInt : Element → Int
  | number x => x.value
  | text .. => 0

@[simp] theorem toInt_reduce_modEq : (number (F.reduce a)).toInt ≡ a [ZMOD F.order] :=
  PrimeField.reduce_value_modEq

/-- Whether an element holds a residue. -/
def IsNumber : Element → Prop
  | number _ => True
  | text .. => False

theorem IsNumber.eq_reduce {x : Element} (h : x.IsNumber) :
    x = .number (x.field.reduce x.toInt) := by
  cases x with
  | number x => rw [field_number, toInt, PrimeField.reduce_value_residue]
  | text F t => exact h.elim

end Element

/-! ## Supplied values -/

/-- An element that holds a text in place of a residue. -/
def Value.holdsText : Value → Bool
  | .element (.text ..) => true
  | _ => false

/-- A value that fits a field is an element of it, or an integer that is reduced. -/
theorem PrimeField.element_ok {F : PrimeField} {v : Value} {x : Element}
    (h : F.element v = .ok x) : x.field = F ∧ (v.holdsText = false → x.IsNumber) := by
  unfold element at h
  split at h
  · split at h
    · next hfield =>
      cases h
      refine ⟨hfield, fun hv => ?_⟩
      cases x with
      | number r => trivial
      | text G content => cases hv
    · cases h
  · cases h
    exact ⟨rfl, fun _ => trivial⟩
  · cases h

theorem PrimeField.element_int (F : PrimeField) (n : Int) :
    F.element (.int n) = .ok (.number (F.reduce n)) := rfl

theorem PrimeField.element_self {F : PrimeField} {x : Element} (h : x.field = F) :
    F.element (.element x) = .ok x := if_pos h

/-! ## Gates -/

theorem Selectors.mem_toList_set {s : Selectors} {selector : Selector} {x y : Element}
    (h : y ∈ (s.set selector x).toList) : y = x ∨ y ∈ s.toList := by
  cases selector <;> simp only [set, toList, List.mem_cons] at h ⊢ <;> tauto

/-- Integers for the six numbers of a gate. -/
structure Weights where
  qm : Int
  ql : Int
  qr : Int
  qo : Int
  qc : Int
  pi : Int

namespace Weights

/-- The left side of a gate over the integers. -/
def eval (w : Weights) (a b o : Int) : Int :=
  w.qm * a * b + w.ql * a + w.qr * b + w.qo * o + w.qc + w.pi

/-- The selectors that a gate over a field has for these integers. -/
def selectors (w : Weights) (F : PrimeField) : Selectors where
  qm := .number (F.reduce w.qm)
  ql := .number (F.reduce w.ql)
  qr := .number (F.reduce w.qr)
  qo := .number (F.reduce w.qo)
  qc := .number (F.reduce w.qc)
  pi := .number (F.reduce w.pi)

end Weights

/-- The integers that the numbers of a gate stand for. -/
def Selectors.weights (s : Selectors) : Weights :=
  ⟨s.qm.toInt, s.ql.toInt, s.qr.toInt, s.qo.toInt, s.qc.toInt, s.pi.toInt⟩

/-- **A gate evaluates to the residue of its left side over the integers.** -/
theorem Gate.evaluate_reduce {F : PrimeField} {w : Weights} {g : Gate} {a b o : Int}
    (hg : g.selectors = w.selectors F) :
    g.evaluate (.element (.number (F.reduce a))) (.element (.number (F.reduce b)))
      (.element (.number (F.reduce o))) = .ok (.number (F.reduce (w.eval a b o))) := by
  simp [evaluate, hg, Weights.selectors, Weights.eval]

end PlonkGates
