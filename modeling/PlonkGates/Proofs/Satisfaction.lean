import PlonkGates.Proofs.Lowering

/-!
# Gates hold exactly if equations do

The gate of an expression evaluates to the residue of its left side minus its right side, with the
values that its variables have in the table (`evaluate_gate`). A wire leads to the value of the
variable that is bound to it, and a free wire to zero.

So the gates of a lowered circuit that do not hold are those of the expressions that are not true
modulo the order of the field (`unsatisfied_eq`).
-/

namespace PlonkGates

/-! ## Values on wires -/

theorem ConstraintSystem.witnessValue_of_getElem? {s : ConstraintSystem} {i : Nat} {x : Element}
    (h : s.witnesses[i]? = some x) : s.witnessValue i = .ok x := by
  have hposition : s.witnessPosition i = i := if_neg (by omega)
  simp only [witnessValue, hposition, Int.toNat_natCast, h]
  rw [if_neg (by omega)]

/-- The integer on a wire of a layout: that of its variable, or zero if it is free. -/
def Layout.valueOn (layout : Layout) (v : String → Int) (wire : Wire) : Int :=
  match layout.bindings.lookup wire with
  | some name => v name
  | none => 0

namespace Circuit

variable {c : Circuit} {e : Expression}

/-- The value of a variable is the residue of the integer that it stands for. -/
theorem Accepted.value_eq (h : c.Accepted) (hnumbers : c.table.HoldsNumbers) {name : String}
    {v : Variable} (hv : c.table.find? name = some v) :
    v.value = .number (c.field.reduce (c.table.valuation name)) := by
  have hmem := VariableTable.mem_of_find? hv
  have hvalue : c.table.valuation name = v.value.toInt := by
    rw [VariableTable.valuation, hv]
    rfl
  rw [hvalue, ← h.inField v hmem]
  exact (hnumbers v hmem).eq_reduce

/-- In a system of its own, the witness on a wire is the residue of the value there. -/
theorem Attached.witnessValue {layout : Layout} {wire : Wire} {i : Nat} (h : c.Accepted)
    (hnumbers : c.table.HoldsNumbers) (hi : c.Attached (.empty c.field) layout wire i)
    {s : ConstraintSystem} (hs : s.witnesses = (c.withWitnesses (.empty c.field)).witnesses) :
    s.witnessValue i =
      .ok (.number (c.field.reduce (layout.valueOn c.table.valuation wire))) := by
  apply ConstraintSystem.witnessValue_of_getElem?
  rw [hs]
  have hwire := hi.2
  unfold Layout.valueOn
  cases hname : layout.bindings.lookup wire with
  | some name =>
    rw [hname] at hwire
    obtain ⟨v, hv, hx⟩ := hwire
    rw [hx, h.value_eq hnumbers hv]
  | none =>
    rw [hname] at hwire
    rw [show i = 0 from hwire]
    rfl

/-! ## The value of a gate -/

theorem Accepted.publicSlot_eq (h : c.Accepted) (hnumbers : c.table.HoldsNumbers)
    (he : e ∈ c.expressions) :
    c.table.publicSlot c.field e.rhs =
      .ok (.number (c.field.reduce (-rightSide c.table.valuation e.rhs))) := by
  cases hp : e.rhs with
  | none => rfl
  | some p =>
    obtain ⟨v, hv, hrole, hfield⟩ := h.exists_public he hp
    rw [VariableTable.publicSlot, hv]
    simp only [if_pos hrole, h.value_eq hnumbers hv, PrimeField.signedElement_reduce, rightSide]
    cases p.negative with
    | true => simp [signedInt]
    | false => simp [signedInt]

/-- **The gate of an expression evaluates to the difference of its two sides.** -/
theorem Accepted.evaluate_gate (h : c.Accepted) (hnumbers : c.table.HoldsNumbers)
    (he : e ∈ c.expressions) (hint : e.IsIntegral) {g : Gate}
    (hg : c.gateOf (c.withWitnesses (.empty c.field)) (c.indices (.empty c.field)) e = .ok g)
    {s : ConstraintSystem} (hs : s.witnesses = (c.withWitnesses (.empty c.field)).witnesses) :
    s.evaluate g = .ok (.number (c.field.reduce (e.difference c.table.valuation))) := by
  obtain ⟨layout, a, b, o, hlayout, ha, hb, ho, hgate, -⟩ :=
    h.gateOf_eq (s := .empty c.field) rfl he hint
  rw [hgate, h.publicSlot_eq hnumbers he] at hg
  cases hg
  have hvalue : ∀ {wire i}, c.Attached (.empty c.field) layout wire i → s.witnessValue i =
      .ok (.number (c.field.reduce (layout.valueOn c.table.valuation wire))) :=
    fun hi => hi.witnessValue h hnumbers hs
  -- the public slot is an integer too, so all six numbers are weights
  have hweights : (gateWith c.field layout a b o (.number
      (c.field.reduce (-rightSide c.table.valuation e.rhs)))).selectors =
      Weights.selectors { layout.weights with pi := -rightSide c.table.valuation e.rhs }
        c.field := rfl
  have hleft := Layout.eval_weights hlayout (h.fits e he).linear
    (v := c.table.valuation) (x := layout.valueOn c.table.valuation)
    fun wire name hname => by rw [Layout.valueOn, hname]
  rw [ConstraintSystem.evaluate]
  simp only [gateWith, hvalue ha, hvalue hb, hvalue ho, ok_bind]
  refine (Gate.evaluate_reduce hweights).trans ?_
  congr 3
  rw [Expression.difference, ← hleft, Weights.eval, Weights.eval, layout.weights_others.2]
  ring

end Circuit

/-! ## Gates that do not hold -/

/-- The positions of the members of a list with a property. -/
theorem ConstraintSystem.nonzeroPositions_map {α : Type} (f : α → Element) (index : Nat)
    (xs : List α) :
    nonzeroPositions index (xs.map f) =
      ((xs.zipIdx index).filter fun x => !(f x.1).isZero).map (·.2) := by
  induction xs generalizing index with
  | nil => rfl
  | cons x xs ih =>
    rw [List.map_cons, nonzeroPositions, ih, List.zipIdx_cons]
    cases hx : (f x).isZero with
    | true => rw [List.filter_cons_of_neg (by simp [hx])]; simp
    | false => rw [List.filter_cons_of_pos (by simp [hx])]; simp

/-- The positions of the expressions that are not true, in increasing order. -/
def Expression.failing (F : PrimeField) (v : String → Int) (es : List Expression) : List Nat :=
  (es.zipIdx.filter fun x => ¬ x.1.HoldsIn F v).map (·.2)

namespace Expression

variable {F : PrimeField} {v : String → Int} {es : List Expression}

theorem failing_pairwise : (failing F v es).Pairwise (· < ·) := by
  have hsublist : (failing F v es).Sublist (es.zipIdx.map (·.2)) := List.filter_sublist.map _
  rw [List.zipIdx_map_snd] at hsublist
  exact List.Pairwise.sublist hsublist List.pairwise_lt_range'

theorem mem_failing {i : Nat} : i ∈ failing F v es ↔ ∃ e, es[i]? = some e ∧ ¬ e.HoldsIn F v := by
  simp only [failing, List.mem_map, List.mem_filter, decide_eq_true_eq]
  constructor
  · rintro ⟨⟨e, j⟩, ⟨hmem, hfails⟩, rfl⟩
    exact ⟨e, List.mem_zipIdx_iff_getElem?.mp hmem, hfails⟩
  · rintro ⟨e, he, hfails⟩
    exact ⟨(e, i), ⟨List.mem_zipIdx_iff_getElem?.mpr he, hfails⟩, rfl⟩

theorem failing_eq_nil_iff : failing F v es = [] ↔ ∀ e ∈ es, e.HoldsIn F v := by
  constructor
  · intro hnil e he
    obtain ⟨i, hi⟩ := List.mem_iff_getElem?.mp he
    by_contra hfails
    have hmem : i ∈ failing F v es := mem_failing.mpr ⟨e, hi, hfails⟩
    rw [hnil] at hmem
    cases hmem
  · intro hall
    rw [List.eq_nil_iff_forall_not_mem]
    intro i hi
    obtain ⟨e, he, hfails⟩ := mem_failing.mp hi
    exact hfails (hall e (List.mem_of_getElem? he))

end Expression

namespace Circuit

variable {c : Circuit} {l : LoweredCircuit}

/-- Every gate of a lowered circuit has the value of its expression. -/
theorem Accepted.evaluate_lower (h : c.Accepted) (hnumbers : c.table.HoldsNumbers)
    (hint : ∀ e ∈ c.expressions, e.IsIntegral) (hl : c.lower = .ok l) :
    List.Forall₂ (fun e g => l.system.evaluate g =
      .ok (.number (c.field.reduce (e.difference c.table.valuation)))) c.expressions l.gates := by
  obtain ⟨gates, hgates, rfl⟩ := (lower_eq_ok_iff h.inField).mp hl
  refine (forall₂_mem hgates).imp fun e g hg => ?_
  exact h.evaluate_gate hnumbers hg.1 (hint e hg.1) hg.2 rfl

theorem Accepted.leftSides_eq (h : c.Accepted) (hnumbers : c.table.HoldsNumbers)
    (hint : ∀ e ∈ c.expressions, e.IsIntegral) (hl : c.lower = .ok l) :
    l.system.leftSides = .ok (c.expressions.map fun e =>
      .number (c.field.reduce (e.difference c.table.valuation))) := by
  rw [ConstraintSystem.leftSides, mapM_eq_ok, List.forall₂_map_right_iff]
  exact (h.evaluate_lower hnumbers hint hl).flip

/-- **The gates that do not hold are those of the expressions that are not true.** -/
theorem Accepted.unsatisfied_eq (h : c.Accepted) (hnumbers : c.table.HoldsNumbers)
    (hint : ∀ e ∈ c.expressions, e.IsIntegral) (hl : c.lower = .ok l) :
    l.system.unsatisfied = .ok (Expression.failing c.field c.table.valuation c.expressions) := by
  rw [ConstraintSystem.unsatisfied, h.leftSides_eq hnumbers hint hl, ok_map,
    ConstraintSystem.nonzeroPositions_map, Expression.failing]
  congr 3
  funext x
  have hzero := Element.isZero_reduce (F := c.field) (a := x.1.difference c.table.valuation)
  rw [Bool.eq_iff_iff, Bool.not_eq_true', ← Bool.not_eq_true, hzero, decide_eq_true_iff]
  rfl

/-- **Lowering keeps the meaning of a program.** A program that is accepted is lowered, whatever
values are supplied, to one gate for each expression in their order. The value of a gate is the
residue of the left side of its expression minus the right side. So the gates that do not hold are
those of the expressions that are not true modulo the order, and all gates hold if and only if all
expressions are true. -/
theorem lower_keeps_meaning {F : PrimeField} {es : List Expression}
    (hc : ofExpressions F es = .ok c) (hint : ∀ e ∈ es, e.IsIntegral)
    {calls : List (List (Value × Value))} (htext : TextFree calls) :
    ∃ l, (c.afterCalls calls).lower = .ok l ∧
      List.Forall₂ (fun e g => l.system.evaluate g =
        .ok (.number (F.reduce (e.difference (c.afterCalls calls).table.valuation)))) es l.gates ∧
      (∃ positions, l.system.unsatisfied = .ok positions ∧ positions.Pairwise (· < ·) ∧
        ∀ i, i ∈ positions ↔
          ∃ e, es[i]? = some e ∧ ¬ e.HoldsIn F (c.afterCalls calls).table.valuation) ∧
      ∃ satisfied, l.system.isSatisfied = .ok satisfied ∧
        (satisfied = true ↔ ∀ e ∈ es, e.HoldsIn F (c.afterCalls calls).table.valuation) := by
  have haccepted := (accepted_ofExpressions hc).afterCalls calls
  have hnumbers := holdsNumbers_afterCalls (holdsNumbers_ofExpressions hc) htext
  obtain ⟨-, rfl⟩ := ofExpressions_ok hc
  generalize hd : Circuit.afterCalls _ calls = d at *
  have hfield : d.field = F := by rw [← hd, field_afterCalls]
  have hes : d.expressions = es := by rw [← hd, expressions_afterCalls]
  rw [← hes] at hint
  obtain ⟨l, hl⟩ := haccepted.exists_lower hint hnumbers
  have hevaluate := haccepted.evaluate_lower hnumbers hint hl
  have hunsatisfied := haccepted.unsatisfied_eq hnumbers hint hl
  rw [hfield, hes] at hevaluate hunsatisfied
  have hsatisfied := congrArg (Except.map (·.isEmpty)) hunsatisfied
  refine ⟨l, hl, hevaluate, ⟨_, hunsatisfied, Expression.failing_pairwise,
    fun i => Expression.mem_failing⟩, _, hsatisfied, ?_⟩
  rw [List.isEmpty_iff, Expression.failing_eq_nil_iff]

/-- In the program of the example `b` is 3 modulo 97 and `c` is 3, so the second equation holds. The
first does not: its sides differ by 4. -/
theorem lower_exampleProgram_keeps_meaning :
    (∀ e ∈ exampleProgram, e.IsIntegral) ∧ TextFree exampleCalls ∧
      ∃ c, ofExpressions exampleField exampleProgram = .ok c ∧
        ∃ l, (c.afterCalls exampleCalls).lower = .ok l ∧ l.gates.length = 2 ∧
          ∃ positions, l.system.unsatisfied = .ok positions ∧ 0 ∈ positions ∧ 1 ∉ positions := by
  have hvalid : Expression.validate exampleProgram = .ok () := by rfl
  have hc := ofExpressions_eq_ok exampleField hvalid
  have htext : TextFree exampleCalls := by decide
  obtain ⟨l, hl, hgates, ⟨positions, hpositions, -, hmem⟩, -⟩ :=
    lower_keeps_meaning hc (by decide) htext
  refine ⟨by decide, htext, _, hc, l, hl, hgates.length_eq.symm, positions, hpositions, ?_, ?_⟩
  · exact (hmem 0).mpr ⟨_, rfl, by decide +kernel⟩
  · intro hone
    obtain ⟨e, he, hfails⟩ := (hmem 1).mp hone
    cases he
    revert hfails
    decide +kernel

end Circuit

end PlonkGates
