import Mathlib.Data.Int.ModEq
import PlonkGates.Expression.OfEquation
import PlonkGates.Field.Basic
import PlonkGates.Proofs.Numerals

/-!
# What equations say

An equation is true of a valuation, which gives every name an integer, if its left side minus its
right side is a multiple of the order of the field. This is said twice: of the equation as it is
written (`Equation.difference`), and of the expression that it is normalised to
(`Expression.difference`).

Normalising an equation sorts its terms and reads its coefficients. It keeps the difference of the
two sides for every valuation (`difference_ofEquation`), and it keeps the names.
-/

namespace PlonkGates

/-- A number with its sign in front. -/
def signedInt (negative : Bool) (n : Int) : Int := if negative then -n else n

theorem signedInt_modEq {m a b : Int} (h : a ≡ b [ZMOD m]) (negative : Bool) :
    signedInt negative a ≡ signedInt negative b [ZMOD m] := by
  cases negative with
  | true => exact h.neg
  | false => exact h

/-- The value of a right side. -/
def rightSide (v : String → Int) : Option PublicTerm → Int
  | none => 0
  | some p => signedInt p.negative (v p.name)

/-! ## Expressions -/

/-- The integer that a coefficient is. Other values are not coefficients of accepted gates. -/
def Value.toInt : Value → Int
  | .int n => n
  | _ => 0

def Value.isInt : Value → Bool
  | .int _ => true
  | _ => false

theorem Value.eq_int_of_isInt {v : Value} (h : v.isInt = true) : v = .int v.toInt := by
  cases v with
  | int n => rfl
  | _ => simp [isInt] at h

def QuadraticTerm.value (v : String → Int) (t : QuadraticTerm) : Int :=
  signedInt t.negative (t.coefficient.toInt * v t.left * v t.right)

def LinearTerm.value (v : String → Int) (t : LinearTerm) : Int :=
  signedInt t.negative (t.coefficient.toInt * v t.name)

namespace Expression

/-- All coefficients are integers. -/
structure IsIntegral (e : Expression) : Prop where
  quadratic : ∀ t, e.quadratic = some t → t.coefficient.isInt = true
  linear : ∀ t ∈ e.linear, t.coefficient.isInt = true

instance : DecidablePred IsIntegral := fun e =>
  decidable_of_iff ((∀ t ∈ e.quadratic, t.coefficient.isInt = true) ∧
      ∀ t ∈ e.linear, t.coefficient.isInt = true)
    ⟨fun h => ⟨h.1, h.2⟩, fun h => ⟨h.quadratic, h.linear⟩⟩

theorem isIntegral_iff {e : Expression} :
    e.IsIntegral ↔ ∀ v ∈ e.coefficients, v.isInt = true := by
  rw [coefficients, List.forall_mem_append, List.forall_mem_map, Option.toList_map,
    List.forall_mem_map]
  exact ⟨fun h => ⟨fun t ht => h.quadratic t (Option.mem_toList.mp ht), h.linear⟩,
    fun h => ⟨fun t ht => h.1 t (Option.mem_toList.mpr ht), h.2⟩⟩

/-- The sum of the terms; an absent quadratic term counts as zero. -/
def leftSide (v : String → Int) (e : Expression) : Int :=
  (e.quadratic.map (·.value v)).getD 0 + (e.linear.map (·.value v)).sum

/-- The left side minus the right side. -/
def difference (v : String → Int) (e : Expression) : Int := e.leftSide v - rightSide v e.rhs

/-- The expression is true modulo the order of a field. -/
def HoldsIn (F : PrimeField) (v : String → Int) (e : Expression) : Prop :=
  (F.order : Int) ∣ e.difference v

instance (F : PrimeField) (v : String → Int) : DecidablePred (HoldsIn F v) := fun e =>
  inferInstanceAs (Decidable ((F.order : Int) ∣ e.difference v))

end Expression

/-! ## Valuations that are congruent -/

section Congruence

variable {m : Int} {v w : String → Int}

theorem sum_map_modEq {α : Type} {f g : α → Int} {xs : List α}
    (h : ∀ x ∈ xs, f x ≡ g x [ZMOD m]) : (xs.map f).sum ≡ (xs.map g).sum [ZMOD m] := by
  induction xs with
  | nil => exact Int.ModEq.refl 0
  | cons x xs ih =>
    rw [List.map_cons, List.map_cons, List.sum_cons, List.sum_cons]
    exact (h x (by simp)).add (ih fun y hy => h y (by simp [hy]))

theorem rightSide_modEq {rhs : Option PublicTerm}
    (h : ∀ p, rhs = some p → v p.name ≡ w p.name [ZMOD m]) :
    rightSide v rhs ≡ rightSide w rhs [ZMOD m] := by
  cases rhs with
  | none => exact Int.ModEq.refl 0
  | some p => exact signedInt_modEq (h p rfl) p.negative

/-- **The difference of the two sides depends on the residues of the values alone.** -/
theorem Expression.difference_modEq {e : Expression}
    (h : ∀ name ∈ e.names, v name ≡ w name [ZMOD m]) :
    e.difference v ≡ e.difference w [ZMOD m] := by
  have hwire : ∀ name ∈ e.wireNames, v name ≡ w name [ZMOD m] := fun name hn =>
    h name (List.mem_append_right _ hn)
  have hquadratic : (e.quadratic.map (·.value v)).getD 0 ≡
      (e.quadratic.map (·.value w)).getD 0 [ZMOD m] := by
    cases hq : e.quadratic with
    | none => exact Int.ModEq.refl 0
    | some t =>
      have hleft := hwire t.left (by simp [wireNames, hq])
      have hright := hwire t.right (by simp [wireNames, hq])
      exact signedInt_modEq ((hleft.mul_left _).mul hright) t.negative
  have hlinear : (e.linear.map (·.value v)).sum ≡ (e.linear.map (·.value w)).sum [ZMOD m] :=
    sum_map_modEq fun t ht =>
      signedInt_modEq ((hwire t.name (by simp [wireNames]; exact Or.inr ⟨t, ht, rfl⟩)).mul_left _)
        t.negative
  have hright : rightSide v e.rhs ≡ rightSide w e.rhs [ZMOD m] :=
    rightSide_modEq fun p hp => h p.name (by simp [names, hp])
  exact (hquadratic.add hlinear).sub hright

end Congruence

/-! ## Equations as they are written -/

namespace Equation

/-- The number that a written coefficient stands for; a missing one stands for one. -/
def coefficientValue : Option String → Int
  | none => 1
  | some digits => Text.ofAsciiDigits digits.toList

def Term.value (v : String → Int) (t : Term) : Int :=
  signedInt t.negative (coefficientValue t.coefficient * (t.factors.map v).prod)

/-- The sum of the terms minus the right side. -/
def difference (v : String → Int) (e : Equation) : Int :=
  (e.terms.map (·.value v)).sum - rightSide v e.rhs

/-- The equation is true modulo the order of a field. -/
def HoldsIn (F : PrimeField) (v : String → Int) (e : Equation) : Prop :=
  (F.order : Int) ∣ e.difference v

instance (F : PrimeField) (v : String → Int) : DecidablePred (HoldsIn F v) := fun e =>
  inferInstanceAs (Decidable ((F.order : Int) ∣ e.difference v))

/-- All names of an equation. -/
def names (e : Equation) : List String :=
  (e.rhs.map (·.name)).toList ++ e.terms.flatMap (·.factors)

end Equation

/-! ## Normalising an equation -/

/-- A coefficient that is accepted is read as the number that it stands for, and this number can be
written again. -/
theorem readCoefficient_ok {maximum : Value} {line : Option Int} {text : Option String} {n : Nat}
    (h : readCoefficient maximum line text = .ok n) :
    (n : Int) = Equation.coefficientValue text ∧ Text.IsShort n := by
  cases text with
  | none =>
    cases h
    exact ⟨rfl, Text.isShort_one⟩
  | some digits =>
    simp only [readCoefficient] at h
    split at h
    · cases h
    · next hdigits =>
      split at h
      · cases h
      · next hlength =>
        obtain ⟨exceeds, -, h⟩ := bind_eq_ok.mp h
        split at h
        · cases h
        · cases h
          have hall : digits.toList.all Text.isAsciiDigit = true := by simp_all
          exact ⟨rfl, Text.isShort_ofAsciiDigits (List.all_eq_true.mp hall)
            (Nat.not_lt.mp hlength)⟩

namespace NormalTerm

def value (v : String → Int) : NormalTerm → Int
  | quadratic t => t.value v
  | linear t => t.value v

def names : NormalTerm → List String
  | quadratic t => [t.left, t.right]
  | linear t => [t.name]

def coefficient : NormalTerm → Value
  | quadratic t => t.coefficient
  | linear t => t.coefficient

/-- What a written term and the term that it is normalised to have in common. -/
structure Renders (n : NormalTerm) (t : Equation.Term) : Prop where
  value : ∀ v, n.value v = t.value v
  names : n.names = t.factors
  integral : ∃ z, n.coefficient = .int z ∧ Text.IsShort z

theorem renders_of_ofTerm {maximum : Value} {line : Option Int} {t : Equation.Term}
    {n : NormalTerm} (h : ofTerm maximum line t = .ok n) : n.Renders t := by
  obtain ⟨c, hc, h⟩ := bind_eq_ok.mp h
  obtain ⟨hvalue, hshort⟩ := readCoefficient_ok hc
  split at h
  · next x hx =>
    cases h
    refine ⟨fun v => ?_, hx.symm, _, rfl, hshort⟩
    simp [NormalTerm.value, LinearTerm.value, Value.toInt, Equation.Term.value, hx, hvalue]
  · next x y hxy =>
    cases h
    refine ⟨fun v => ?_, hxy.symm, _, rfl, hshort⟩
    simp [NormalTerm.value, QuadraticTerm.value, Value.toInt, Equation.Term.value, hxy, hvalue,
      mul_assoc]
  · cases h

/-- The terms of one kind and those of the other add up to all of them. -/
theorem sum_split (v : String → Int) (ns : List NormalTerm) :
    (ns.map (·.value v)).sum = ((ns.filterMap quadratic?).map (·.value v)).sum +
      ((ns.filterMap linear?).map (·.value v)).sum := by
  induction ns with
  | nil => rfl
  | cons n ns ih =>
    rw [List.map_cons, List.sum_cons, ih]
    cases n with
    | quadratic t =>
      simp only [List.filterMap_cons, quadratic?, linear?, value, List.map_cons, List.sum_cons]
      omega
    | linear t =>
      simp only [List.filterMap_cons, quadratic?, linear?, value, List.map_cons, List.sum_cons]
      omega

theorem mem_names_split (name : String) (ns : List NormalTerm) :
    name ∈ ns.flatMap NormalTerm.names ↔
      (∃ t ∈ ns.filterMap quadratic?, name = t.left ∨ name = t.right) ∨
        ∃ t ∈ ns.filterMap linear?, name = t.name := by
  induction ns with
  | nil => simp
  | cons n ns ih =>
    rw [List.flatMap_cons, List.mem_append, ih]
    cases n with
    | quadratic t => simp [quadratic?, linear?, NormalTerm.names, or_assoc]
    | linear t => simp [quadratic?, linear?, NormalTerm.names, or_left_comm]

/-! Lists of terms, taken one by one. -/

section Renders

variable {ts : List Equation.Term} {ns : List NormalTerm}
  (h : List.Forall₂ (fun t n => NormalTerm.Renders n t) ts ns)
include h

theorem sum_eq_of_renders (v : String → Int) :
    (ns.map (·.value v)).sum = (ts.map (·.value v)).sum := by
  induction h with
  | nil => rfl
  | cons hn _ ih => rw [List.map_cons, List.map_cons, List.sum_cons, List.sum_cons, hn.value v, ih]

theorem names_eq_of_renders : ns.flatMap NormalTerm.names = ts.flatMap (·.factors) := by
  induction h with
  | nil => rfl
  | cons hn _ ih => rw [List.flatMap_cons, List.flatMap_cons, hn.names, ih]

theorem integral_of_renders : ∀ n ∈ ns, ∃ z, n.coefficient = .int z ∧ Text.IsShort z := by
  induction h with
  | nil => simp
  | cons hn _ ih => exact List.forall_mem_cons.mpr ⟨hn.integral, ih⟩

end Renders

end NormalTerm

namespace Expression

variable {q : Equation} {index : Int} {maximum : Value} {e : Expression}

/-- What an expression is made of: the terms in two groups, of which the first has at most one. -/
theorem ofEquation_ok (h : ofEquation q index maximum = .ok e) :
    ∃ ns, List.Forall₂ (fun t n => NormalTerm.Renders n t) q.terms ns ∧
      (ns.filterMap NormalTerm.quadratic?).length ≤ 1 ∧
      e = ⟨(ns.filterMap NormalTerm.quadratic?).head?, ns.filterMap NormalTerm.linear?, q.rhs,
        q.line⟩ := by
  obtain ⟨ns, hns, h⟩ := bind_eq_ok.mp h
  have hrenders := (mapM_eq_ok.mp hns).imp fun _ _ hn => NormalTerm.renders_of_ofTerm hn
  dsimp only at h
  split at h
  · cases h
  · next hlength =>
    cases h
    exact ⟨ns, hrenders, by omega, rfl⟩

/-- **Normalising keeps the difference of the two sides.** -/
theorem difference_ofEquation (h : ofEquation q index maximum = .ok e) (v : String → Int) :
    e.difference v = q.difference v := by
  obtain ⟨ns, hns, hlength, rfl⟩ := ofEquation_ok h
  rw [difference, leftSide, Equation.difference, ← NormalTerm.sum_eq_of_renders hns,
    NormalTerm.sum_split v ns]
  -- a second quadratic term would be dropped, but there is none
  match hq : ns.filterMap NormalTerm.quadratic?, hlength with
  | [], _ => simp
  | [t], _ => simp

/-- **The coefficients are integers that can be written.** -/
theorem exists_int_ofEquation (h : ofEquation q index maximum = .ok e) :
    ∀ v ∈ e.coefficients, ∃ z, v = .int z ∧ Text.IsShort z := by
  obtain ⟨ns, hns, -, rfl⟩ := ofEquation_ok h
  have hint := NormalTerm.integral_of_renders hns
  intro v hv
  rcases List.mem_append.mp hv with hv | hv
  · obtain ⟨t, ht, rfl⟩ := Option.map_eq_some_iff.mp (Option.mem_toList.mp hv)
    obtain ⟨n, hn, hnt⟩ := List.mem_filterMap.mp (List.mem_of_head? ht)
    cases n with
    | quadratic s =>
      cases hnt
      exact hint _ hn
    | linear s => cases hnt
  · obtain ⟨t, ht, rfl⟩ := List.mem_map.mp hv
    obtain ⟨n, hn, hnt⟩ := List.mem_filterMap.mp ht
    cases n with
    | quadratic s => cases hnt
    | linear s =>
      cases hnt
      exact hint _ hn

theorem isIntegral_ofEquation (h : ofEquation q index maximum = .ok e) : e.IsIntegral := by
  refine isIntegral_iff.mpr fun v hv => ?_
  obtain ⟨z, rfl, -⟩ := exists_int_ofEquation h v hv
  rfl

theorem exists_toText_ofEquation (h : ofEquation q index maximum = .ok e) :
    ∃ text, e.toText = .ok text := by
  refine e.writes_toText.exists_ok_iff.mpr fun v hv => ?_
  obtain ⟨z, rfl, hz⟩ := exists_int_ofEquation h v hv
  exact Value.isWritable_int.mpr hz

theorem line_ofEquation (h : ofEquation q index maximum = .ok e) : e.line = q.line := by
  obtain ⟨ns, -, -, rfl⟩ := ofEquation_ok h
  rfl

/-- **Normalising keeps the names.** -/
theorem mem_names_ofEquation (h : ofEquation q index maximum = .ok e) {name : String} :
    name ∈ e.names ↔ name ∈ q.names := by
  obtain ⟨ns, hns, hlength, rfl⟩ := ofEquation_ok h
  rw [names, Equation.names, List.mem_append, List.mem_append,
    ← NormalTerm.names_eq_of_renders hns, NormalTerm.mem_names_split, wireNames]
  match hq : ns.filterMap NormalTerm.quadratic?, hlength with
  | [], _ => simp [eq_comm]
  | [t], _ => simp [eq_comm, or_assoc]

end Expression

end PlonkGates
