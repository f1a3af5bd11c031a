import PlonkGates.Proofs.Residue

/-!
# Calculations with integers and elements

A calculation mixes plain integers with elements of fields. Every operation that meets an element is
carried out in its field, whichever side the element stands on, and reduces its result. None of this
shows in the end (`Calculation.evaluate_eq`): the result is the integer value of the calculation,
reduced once. Only elements of different fields do not mix, and then no rearrangement of the
operations helps: one of them meets two fields.
-/

namespace PlonkGates

/-! ## Operations -/

/-- The operations on two operands. -/
inductive Operation where
  | add
  | sub
  | mul
deriving DecidableEq, Repr

namespace Operation

/-- The operation on supplied values. -/
def run : Operation → Value → Value → Except Fault Value
  | add => Value.add
  | sub => Value.sub
  | mul => Value.mul

/-- The operation on integers. -/
def apply : Operation → Int → Int → Int
  | add, m, n => m + n
  | sub, m, n => m - n
  | mul, m, n => m * n

theorem apply_modEq (op : Operation) {p a a' b b' : Int} (ha : a ≡ a' [ZMOD p])
    (hb : b ≡ b' [ZMOD p]) : op.apply a b ≡ op.apply a' b' [ZMOD p] := by
  cases op with
  | add => exact ha.add hb
  | sub => exact ha.sub hb
  | mul => exact ha.mul hb

theorem run_integers (op : Operation) (m n : Int) :
    op.run (.int m) (.int n) = .ok (.int (op.apply m n)) := by
  cases op <;> rfl

theorem run_element_integer (op : Operation) (x : Residue) (n : Int) :
    op.run (.element (.number x)) (.int n) =
      .ok (.element (.number (x.field.reduce (op.apply x.value n)))) := by
  cases op <;> rfl

/-- An integer on the left side. A sum and a product are taken with the operands exchanged. -/
theorem run_integer_element (op : Operation) (n : Int) (y : Residue) :
    op.run (.int n) (.element (.number y)) =
      .ok (.element (.number (y.field.reduce (op.apply n y.value)))) := by
  cases op with
  | add => rw [apply, Int.add_comm n]; rfl
  | sub => rfl
  | mul => rw [apply, Int.mul_comm n]; rfl

theorem run_elements (op : Operation) (x y : Residue) :
    op.run (.element (.number x)) (.element (.number y)) =
      if y.field = x.field then .ok (.element (.number (x.field.reduce (op.apply x.value y.value))))
      else .error (.mixedFields x.field y.field) := by
  by_cases hfield : y.field = x.field
  · cases op <;> simp [run, apply, Value.add, Value.sub, Value.mul, Element.add, Element.sub,
      Element.mul, Value.within, hfield, Element.content, PrimeField.sum, PrimeField.difference,
      PrimeField.product, PrimeField.combine, Value.integer?]
  · cases op <;> simp [run, Value.add, Value.sub, Value.mul, Element.add, Element.sub,
      Element.mul, Value.within, hfield]

end Operation

/-! ## Numbers

An integer that is kept as it is, or as the element that it has in a field.
-/

/-- The value that stands for an integer, in a field or without one. -/
def Value.ofNumber : Option PrimeField → Int → Value
  | none, z => .int z
  | some F, z => .element (.number (F.reduce z))

namespace Operation

/-- **An operation on two numbers is the one on their integers,** in the field that either has. -/
theorem run_ofNumber (op : Operation) {f g : Option PrimeField}
    (hfields : ∀ F ∈ f, ∀ G ∈ g, F = G) (a b : Int) :
    op.run (.ofNumber f a) (.ofNumber g b) = .ok (.ofNumber (f.or g) (op.apply a b)) := by
  cases f with
  | none =>
    cases g with
    | none => exact op.run_integers a b
    | some G =>
      rw [Value.ofNumber, Value.ofNumber, run_integer_element, PrimeField.reduce_field,
        PrimeField.reduce_congr (op.apply_modEq (Int.ModEq.refl a) PrimeField.reduce_value_modEq)]
      rfl
  | some F =>
    cases g with
    | none =>
      rw [Value.ofNumber, Value.ofNumber, run_element_integer, PrimeField.reduce_field,
        PrimeField.reduce_congr (op.apply_modEq PrimeField.reduce_value_modEq (Int.ModEq.refl b))]
      rfl
    | some G =>
      obtain rfl : F = G := hfields F rfl G rfl
      rw [Value.ofNumber, Value.ofNumber, run_elements, PrimeField.reduce_field,
        PrimeField.reduce_field, if_pos rfl, PrimeField.reduce_congr
          (op.apply_modEq PrimeField.reduce_value_modEq PrimeField.reduce_value_modEq)]
      rfl

/-- Elements of two fields have no sum, no difference and no product. -/
theorem run_mixed (op : Operation) {F G : PrimeField} (h : F ≠ G) (a b : Int) :
    op.run (.ofNumber (some F) a) (.ofNumber (some G) b) = .error (.mixedFields F G) := by
  rw [Value.ofNumber, Value.ofNumber, run_elements]
  exact if_neg h.symm

end Operation

theorem Value.neg_ofNumber (f : Option PrimeField) (a : Int) :
    (Value.ofNumber f a).neg = .ok (.ofNumber f (-a)) := by
  cases f with
  | none => rfl
  | some F => rw [ofNumber, neg, Element.neg_reduce]; rfl

/-! ## Calculations -/

/-- A calculation with integers and with the elements that integers have in fields. -/
inductive Calculation where
  | integer (z : Int)
  | element (F : PrimeField) (z : Int)
  | neg (t : Calculation)
  | binary (op : Operation) (s t : Calculation)
deriving DecidableEq, Repr

namespace Calculation

/-- The result of a calculation, from left to right. -/
def evaluate : Calculation → Except Fault Value
  | integer z => .ok (.int z)
  | element F z => (F.element (.int z)).map .element
  | neg t => do (← t.evaluate).neg
  | binary op s t => do
    let v ← s.evaluate
    op.run v (← t.evaluate)

/-- The value of a calculation over the integers, without any field. -/
def value : Calculation → Int
  | integer z => z
  | element _ z => z
  | neg t => -t.value
  | binary op s t => op.apply s.value t.value

/-- The fields of the elements in a calculation. -/
def fields : Calculation → List PrimeField
  | integer _ => []
  | element F _ => [F]
  | neg t => t.fields
  | binary _ s t => s.fields ++ t.fields

/-- What a calculation comes to: a number in the only field that occurs, or a fault about two fields
that do not mix. -/
inductive ComesTo (t : Calculation) (result : Except Fault Value) : Prop
  | number (f : Option PrimeField) (hfields : ∀ F, F ∈ t.fields ↔ F ∈ f)
      (hresult : result = .ok (.ofNumber f t.value))
  | mixed (F G : PrimeField) (hF : F ∈ t.fields) (hG : G ∈ t.fields) (hne : F ≠ G)
      (hresult : result = .error (.mixedFields F G))

/-- The step of an operation, once its operands have been evaluated. -/
theorem ComesTo.binary {op : Operation} {s t : Calculation} (hs : s.ComesTo s.evaluate)
    (ht : t.ComesTo t.evaluate) : (binary op s t).ComesTo (binary op s t).evaluate := by
  have hleft : ∀ {F}, F ∈ s.fields → F ∈ (Calculation.binary op s t).fields :=
    List.mem_append_left t.fields
  have hright : ∀ {F}, F ∈ t.fields → F ∈ (Calculation.binary op s t).fields :=
    List.mem_append_right s.fields
  rw [evaluate]
  cases hs with
  | mixed F G hF hG hne hresult =>
    exact .mixed F G (hleft hF) (hleft hG) hne (by rw [hresult, error_bind])
  | number f hf hs =>
    rw [hs, ok_bind]
    cases ht with
    | mixed F G hF hG hne hresult =>
      exact .mixed F G (hright hF) (hright hG) hne (by rw [hresult, error_bind])
    | number g hg ht =>
      rw [ht, ok_bind]
      by_cases hfields : ∀ F ∈ f, ∀ G ∈ g, F = G
      · refine .number (f.or g) (fun F => ?_) (op.run_ofNumber hfields s.value t.value)
        rw [fields, List.mem_append, hf, hg]
        cases f with
        | none => simp
        | some F' =>
          -- both operands have an element, so it is the same field
          refine ⟨fun h => h.elim id fun hF => ?_, Or.inl⟩
          rw [hfields F' rfl F hF]
          rfl
      · push Not at hfields
        obtain ⟨F, rfl, G, rfl, hne⟩ := hfields
        exact .mixed F G (hleft ((hf F).mpr rfl)) (hright ((hg G).mpr rfl)) hne
          (op.run_mixed hne s.value t.value)

theorem comesTo (t : Calculation) : t.ComesTo t.evaluate := by
  induction t with
  | integer z => exact .number none (fun F => by simp [fields]) rfl
  | element F z => exact .number (some F) (fun G => by simp [fields, eq_comm]) rfl
  | neg t ih =>
    cases ih with
    | number f hf hresult =>
      exact .number f hf (by rw [evaluate, hresult, ok_bind, Value.neg_ofNumber]; rfl)
    | mixed F G hF hG hne hresult =>
      exact .mixed F G hF hG hne (by rw [evaluate, hresult, error_bind])
  | binary op s t ihs iht => exact .binary ihs iht

/-- **With elements of one field, a calculation is that of the integers, reduced once.** -/
theorem evaluate_eq {t : Calculation} {F : PrimeField} (hsome : t.fields ≠ [])
    (hfields : ∀ G ∈ t.fields, G = F) :
    t.evaluate = .ok (.element (.number (F.reduce t.value))) := by
  obtain ⟨G, hG⟩ := List.exists_mem_of_ne_nil _ hsome
  cases t.comesTo with
  | number f hf hresult =>
    obtain rfl : f = some F := hfields G hG ▸ (hf G).mp hG
    exact hresult
  | mixed G H hG hH hne hresult =>
    exact absurd ((hfields G hG).trans (hfields H hH).symm) hne

/-- A calculation fails only at two fields that do not mix. -/
theorem fields_of_error {t : Calculation} {fault : Fault} (h : t.evaluate = .error fault) :
    ∃ F ∈ t.fields, ∃ G ∈ t.fields, F ≠ G ∧ fault = .mixedFields F G := by
  cases t.comesTo with
  | number f hf hresult =>
    rw [hresult] at h
    cases h
  | mixed F G hF hG hne hresult =>
    rw [hresult] at h
    cases h
    exact ⟨F, hF, G, hG, hne, rfl⟩

/-- Where two fields occur, they meet. -/
theorem exists_error {t : Calculation} {F G : PrimeField} (hF : F ∈ t.fields) (hG : G ∈ t.fields)
    (hne : F ≠ G) : ∃ fault, t.evaluate = .error fault := by
  cases t.comesTo with
  | number f hf hresult => exact absurd (Option.mem_unique ((hf F).mp hF) ((hf G).mp hG)) hne
  | mixed F G _ _ _ hresult => exact ⟨_, hresult⟩

end Calculation

/-- The element of the representative closest to zero is the residue that it represents. -/
theorem Residue.element_signed (x : Residue) :
    x.field.element (.int x.signed) = .ok (.number x) := by
  rw [PrimeField.element_int, PrimeField.reduce_congr x.signed_modEq,
    PrimeField.reduce_value_residue]

/-- **Arithmetic in a field is that of the integers modulo its order, whatever the mix.** A
calculation with at least one element fails exactly if there are elements of two orders in it.
Otherwise it comes to an element, whose value is that of the integers modulo the order and whose
representative closest to zero leads back to it; calculations with congruent values come to the
same. -/
theorem Calculation.evaluate_modulo (t : Calculation) (hsome : t.fields ≠ []) :
    ((∃ fault, t.evaluate = .error fault) ↔
      ∃ F ∈ t.fields, ∃ G ∈ t.fields, F.order ≠ G.order) ∧
    (∀ fault, t.evaluate = .error fault → ∃ F G, fault = .mixedFields F G) ∧
    ∀ F, (∀ G ∈ t.fields, G.order = F.order) →
      (∃ x : Residue, t.evaluate = .ok (.element (.number x)) ∧ x.field = F ∧
        x.value < F.order ∧ (x.value : Int) = t.value % F.order ∧
        F.element (.int x.signed) = .ok (.number x) ∧
        -(F.order : Int) < 2 * x.signed ∧ 2 * x.signed ≤ F.order) ∧
      ∀ u : Calculation, u.fields ≠ [] → (∀ G ∈ u.fields, G.order = F.order) →
        u.value ≡ t.value [ZMOD F.order] → u.evaluate = t.evaluate := by
  have hsame : ∀ {u : Calculation} {F : PrimeField}, (∀ G ∈ u.fields, G.order = F.order) →
      ∀ G ∈ u.fields, G = F := fun h G hG => PrimeField.eq_iff_order.mpr (h G hG)
  refine ⟨⟨?_, ?_⟩, ?_, fun F hfields => ?_⟩
  · rintro ⟨fault, hfault⟩
    obtain ⟨F, hF, G, hG, hne, -⟩ := fields_of_error hfault
    exact ⟨F, hF, G, hG, fun horder => hne (PrimeField.eq_iff_order.mpr horder)⟩
  · rintro ⟨F, hF, G, hG, hne⟩
    exact exists_error hF hG fun hsame => hne (PrimeField.eq_iff_order.mp hsame)
  · intro fault hfault
    obtain ⟨F, -, G, -, -, hmixed⟩ := fields_of_error hfault
    exact ⟨F, G, hmixed⟩
  · have ht := evaluate_eq hsome (hsame hfields)
    refine ⟨⟨F.reduce t.value, ht, rfl, (F.reduce t.value).isLt, F.reduce_value t.value,
      (F.reduce t.value).element_signed, (F.reduce t.value).signed_window⟩, ?_⟩
    intro u husome hufields hvalue
    rw [ht, evaluate_eq husome (hsame hufields), PrimeField.reduce_congr hvalue]

/-- The field of order 6, for examples. -/
def PrimeField.six : PrimeField := ⟨6, by decide⟩

/-- The calculation `-(2 - [5]) * [-7] - 30` with elements of the field of order 6. -/
def Calculation.ofSix : Calculation :=
  .binary .sub (.binary .mul (.neg (.binary .sub (.integer 2) (.element .six 5)))
    (.element .six (-7))) (.integer 30)

/-- Its integer value is -51. The residue lies on the boundary of the window, so it is shown as it
is. -/
theorem Calculation.evaluate_modulo_ofSix :
    ∃ x : Residue, ofSix.evaluate = .ok (.element (.number x)) ∧ x.value = 3 ∧ x.signed = 3 := by
  have hfields : ∀ G ∈ ofSix.fields, G.order = PrimeField.six.order := by
    rintro G (_ | ⟨_, _ | ⟨_, ⟨⟩⟩⟩) <;> rfl
  obtain ⟨-, -, hall⟩ := evaluate_modulo ofSix (List.cons_ne_nil _ _)
  obtain ⟨⟨x, hx, hfield, -, hvalue, -⟩, -⟩ := hall .six hfields
  have hthree : ofSix.value % PrimeField.six.order = 3 := by decide
  have hvalue : x.value = 3 := Int.ofNat_inj.mp (hvalue.trans hthree)
  refine ⟨x, hx, hvalue, ?_⟩
  rw [Residue.signed, hvalue, hfield]
  rfl

end PlonkGates
