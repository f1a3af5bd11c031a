import PlonkGates.Proofs.Lowering

/-!
# What gates show of the values

Lowering a circuit looks at values in two places: it copies those of the witnesses into the system,
and it fills the public slots. All else in a gate, its selectors and the numbers of its wires, comes
from the program alone (`gateOf_agree`), and a public slot is told by the vector of public inputs
(`slotHolds_lower`). So two runs with the same public inputs have the same gates, whatever the
witnesses are.
-/

namespace PlonkGates

/-! ## Gates but for the public slot -/

def Gate.withPi (g : Gate) (x : Element) : Gate :=
  { g with selectors := { g.selectors with pi := x } }

/-- Two gates agree on everything but the public slot. -/
structure Gate.SameButPublic (g h : Gate) : Prop where
  qm : g.selectors.qm = h.selectors.qm
  ql : g.selectors.ql = h.selectors.ql
  qr : g.selectors.qr = h.selectors.qr
  qo : g.selectors.qo = h.selectors.qo
  qc : g.selectors.qc = h.selectors.qc
  a : g.a = h.a
  b : g.b = h.b
  o : g.o = h.o

theorem Gate.sameButPublic_withPi (g : Gate) (x y : Element) :
    (g.withPi x).SameButPublic (g.withPi y) := ⟨rfl, rfl, rfl, rfl, rfl, rfl, rfl, rfl⟩

namespace ConstraintSystem

/-- A public slot goes through to the gate unchanged. -/
theorem gateOf_withPi (s : ConstraintSystem) (d : Draft) (x : Element) :
    s.gateOf (d.withPi x) = (s.gateOf d).map (·.withPi x) := by
  unfold gateOf
  rw [show (d.withPi x).field = d.field from rfl]
  split
  · cases ha : s.wireIndex d.a with
    | error fault => simp [Draft.withPi, ha]
    | ok a =>
      cases hb : s.wireIndex d.b with
      | error fault => simp [Draft.withPi, ha, hb]
      | ok b =>
        cases ho : s.wireIndex d.o with
        | error fault => simp [Draft.withPi, ha, hb, ho]
        | ok o => simp [Draft.withPi, ha, hb, ho, Gate.withPi]
  · rfl

/-- Recording a gate looks at the number of witnesses and not at their values. -/
theorem gateOf_congr {s s' : ConstraintSystem} (hfield : s.field = s'.field)
    (hlength : s.witnesses.length = s'.witnesses.length) (d : Draft) :
    s.gateOf d = s'.gateOf d := by
  have hwire : s.wireIndex = s'.wireIndex := by
    funext index
    cases index with
    | none => rfl
    | some i => simp only [wireIndex, hlength]
  simp only [gateOf, hfield, hwire]

end ConstraintSystem

/-! ## Names and roles -/

/-- The numbers of witnesses depend on their names alone. -/
theorem numbered_congr {index : Nat} {ws ws' : List (String × Element)}
    (h : ws.map (·.1) = ws'.map (·.1)) : numbered index ws = numbered index ws' := by
  induction ws generalizing index ws' with
  | nil =>
    rw [List.map_nil, eq_comm, List.map_eq_nil_iff] at h
    rw [h]
  | cons w ws ih =>
    obtain ⟨w', rest, rfl, hname, hrest⟩ := List.map_eq_cons_iff.mp h.symm
    rw [numbered, numbered, ih hrest.symm, show w.1 = w'.1 from hname.symm]

/-- The value under a key stands where the key stands. -/
theorem getElem?_idxOf_of_lookup {xs : List (String × Element)} {key : String} {x : Element}
    (h : xs.lookup key = some x) : (xs.map (·.2))[(xs.map (·.1)).idxOf key]? = some x := by
  induction xs with
  | nil => cases h
  | cons first xs ih =>
    obtain ⟨name, y⟩ := first
    rw [List.lookup_cons] at h
    rw [List.map_cons, List.map_cons, List.idxOf_cons]
    split at h
    · next hname =>
      cases h
      rw [BEq.comm, hname]
      rfl
    · next hname =>
      rw [BEq.comm, hname]
      exact ih h

namespace Circuit

variable {c c₁ c₂ : Circuit} {e : Expression}

/-! ## One run -/

/-- A gate is one that no value was looked up for, with the public slot filled in. -/
theorem gateOf_ok {s : ConstraintSystem} {ws : List (String × Int)} {g : Gate}
    (h : c.gateOf s ws e = .ok g) :
    ∃ layout d g₀ x, Layout.ofExpression e = .ok layout ∧ Draft.frame layout ws c.field = .ok d ∧
      s.gateOf d = .ok g₀ ∧ c.table.publicSlot c.field e.rhs = .ok x ∧ g = g₀.withPi x := by
  obtain ⟨layout, hlayout, h⟩ := bind_eq_ok.mp h
  obtain ⟨d, hd, hg⟩ := bind_eq_ok.mp h
  rw [Draft.ofLayout_eq, (Layout.describes_of_ok hlayout).rhs] at hd
  obtain ⟨x, hx, hd⟩ := bind_eq_ok.mp hd
  obtain ⟨d, hframe, rfl⟩ := map_eq_ok.mp hd
  rw [ConstraintSystem.gateOf_withPi] at hg
  obtain ⟨g₀, hg₀, rfl⟩ := map_eq_ok.mp hg
  exact ⟨layout, d, g₀, x, hlayout, hframe, hg₀, hx, rfl⟩

/-- What is in the public slot of an expression, told by the vector of public inputs: zero without a
right side, else the entry at the position of the name, negated unless the right side is. -/
def SlotHolds (c : Circuit) (inputs : List Element) (e : Expression) (x : Element) : Prop :=
  match e.rhs with
  | none => x = .number c.field.zero
  | some p => ∃ y, inputs[c.publicInputNames.idxOf p.name]? = some y ∧
      if p.negative then x = y else y.neg = .ok x

theorem Accepted.slotHolds (h : c.Accepted) (he : e ∈ c.expressions) {x : Element}
    (hx : c.table.publicSlot c.field e.rhs = .ok x) : c.SlotHolds c.publicInputs e x := by
  unfold SlotHolds
  cases hp : e.rhs with
  | none =>
    rw [hp] at hx
    exact (Except.ok.inj hx).symm
  | some p =>
    obtain ⟨v, hv, hrole, hfield⟩ := h.exists_public he hp
    have hlookup : c.table.publicInputs.lookup p.name = some v.value :=
      VariableTable.lookup_filter hv (by simp [Variable.isPublic, hrole])
    refine ⟨v.value, getElem?_idxOf_of_lookup hlookup, ?_⟩
    rw [hp, VariableTable.publicSlot, hv] at hx
    simp only [if_pos hrole, PrimeField.signedElement, PrimeField.element_self hfield,
      ok_bind] at hx
    cases hnegative : p.negative with
    | true =>
      rw [hnegative] at hx
      exact (Except.ok.inj hx).symm
    | false =>
      rw [hnegative] at hx
      exact hx

theorem Accepted.publicInputs_lower (h : c.Accepted) {l : LoweredCircuit} (hl : c.lower = .ok l) :
    l.publicInputs = c.publicInputs ∧ l.paddedGates = c.paddedGates := by
  obtain ⟨gates, -, rfl⟩ := (lower_eq_ok_iff h.inField).mp hl
  exact ⟨rfl, rfl⟩

/-- **Every public slot of a lowered circuit is told by the vector of public inputs.** -/
theorem Accepted.slotHolds_lower (h : c.Accepted) {l : LoweredCircuit} (hl : c.lower = .ok l) :
    List.Forall₂ (fun e g => c.SlotHolds l.publicInputs e g.selectors.pi)
      c.expressions l.gates := by
  obtain ⟨gates, hgates, rfl⟩ := (lower_eq_ok_iff h.inField).mp hl
  refine (forall₂_mem hgates).imp fun e g hg => ?_
  obtain ⟨layout, d, g₀, x, -, -, -, hx, rfl⟩ := gateOf_ok hg.2
  exact h.slotHolds hg.1 hx

/-! ## Two runs -/

/-- Two circuits with the same program and the same roles, as two sequences of calls leave them. -/
structure SameProgram (c₁ c₂ : Circuit) : Prop where
  field : c₁.field = c₂.field
  expressions : c₁.expressions = c₂.expressions
  roles : c₁.table.roles = c₂.table.roles

namespace SameProgram

theorem names_witnesses (h : SameProgram c₁ c₂) :
    c₁.table.witnesses.map (·.1) = c₂.table.witnesses.map (·.1) := by
  rw [VariableTable.names_witnesses, VariableTable.names_witnesses, h.roles]

theorem publicInputNames (h : SameProgram c₁ c₂) : c₁.publicInputNames = c₂.publicInputNames := by
  unfold Circuit.publicInputNames
  rw [VariableTable.names_publicInputs, VariableTable.names_publicInputs, h.roles]

theorem indices (h : SameProgram c₁ c₂) (s : ConstraintSystem) : c₁.indices s = c₂.indices s :=
  numbered_congr h.names_witnesses

theorem length_withWitnesses (h : SameProgram c₁ c₂) (s : ConstraintSystem) :
    (c₁.withWitnesses s).witnesses.length = (c₂.withWitnesses s).witnesses.length := by
  have hlength := congrArg List.length h.names_witnesses
  rw [List.length_map, List.length_map] at hlength
  simp [withWitnesses, hlength]

/-- **The gates of an expression in two runs differ in the public slot at most.** -/
theorem gateOf_agree (h : SameProgram c₁ c₂) {s : ConstraintSystem} {g₁ g₂ : Gate}
    (h₁ : c₁.gateOf (c₁.withWitnesses s) (c₁.indices s) e = .ok g₁)
    (h₂ : c₂.gateOf (c₂.withWitnesses s) (c₂.indices s) e = .ok g₂) :
    ∃ (g : Gate) (x₁ x₂ : Element), g₁ = g.withPi x₁ ∧ g₂ = g.withPi x₂ := by
  obtain ⟨layout₁, d₁, g, x₁, hlayout₁, hframe₁, hg₁, -, rfl⟩ := gateOf_ok h₁
  obtain ⟨layout₂, d₂, g', x₂, hlayout₂, hframe₂, hg₂, -, rfl⟩ := gateOf_ok h₂
  -- layout, frame and gate are the same functions of the program in both runs
  obtain rfl : layout₁ = layout₂ := Except.ok.inj (hlayout₁.symm.trans hlayout₂)
  rw [h.indices s, h.field, hframe₂] at hframe₁
  obtain rfl := Except.ok.inj hframe₁
  have hfield : (c₁.withWitnesses s).field = (c₂.withWitnesses s).field := rfl
  rw [ConstraintSystem.gateOf_congr hfield (h.length_withWitnesses s), hg₂] at hg₁
  obtain rfl := Except.ok.inj hg₁
  exact ⟨_, x₁, x₂, rfl, rfl⟩

/-- The public slot of an expression is the same in two runs with the same public inputs. -/
theorem slot_unique (h : SameProgram c₁ c₂) {inputs : List Element} {x₁ x₂ : Element}
    (h₁ : c₁.SlotHolds inputs e x₁) (h₂ : c₂.SlotHolds inputs e x₂) : x₁ = x₂ := by
  unfold SlotHolds at h₁ h₂
  cases hp : e.rhs with
  | none =>
    rw [hp] at h₁ h₂
    rw [h₁, h₂, h.field]
  | some p =>
    rw [hp] at h₁ h₂
    obtain ⟨y₁, hy₁, hx₁⟩ := h₁
    obtain ⟨y₂, hy₂, hx₂⟩ := h₂
    rw [h.publicInputNames, hy₂] at hy₁
    obtain rfl := Option.some.inj hy₁
    by_cases hnegative : p.negative = true
    · rw [if_pos hnegative] at hx₁ hx₂
      exact hx₁.trans hx₂.symm
    · rw [if_neg hnegative] at hx₁ hx₂
      exact Except.ok.inj (hx₁.symm.trans hx₂)

/-- Gates of two runs, taken one by one. -/
theorem lower_agree (h : SameProgram c₁ c₂) (ha₁ : c₁.Accepted) (ha₂ : c₂.Accepted)
    {l₁ l₂ : LoweredCircuit} (h₁ : c₁.lower = .ok l₁) (h₂ : c₂.lower = .ok l₂) :
    List.Forall₂ (fun g₁ g₂ => ∃ (g : Gate) (x₁ x₂ : Element),
      g₁ = g.withPi x₁ ∧ g₂ = g.withPi x₂) l₁.gates l₂.gates := by
  obtain ⟨gates₁, hgates₁, rfl⟩ := (lower_eq_ok_iff ha₁.inField).mp h₁
  obtain ⟨gates₂, hgates₂, rfl⟩ := (lower_eq_ok_iff ha₂.inField).mp h₂
  rw [h.expressions, h.field] at hgates₁
  refine (forall₂_join hgates₁ hgates₂).imp fun g₁ g₂ hg => ?_
  obtain ⟨e, -, hg₁, hg₂⟩ := hg
  exact h.gateOf_agree hg₁ hg₂

end SameProgram

theorem sameProgram_afterCalls (h : c.Accepted) (calls₁ calls₂ : List (List (Value × Value))) :
    SameProgram (c.afterCalls calls₁) (c.afterCalls calls₂) where
  field := by rw [field_afterCalls, field_afterCalls]
  expressions := by rw [expressions_afterCalls, expressions_afterCalls]
  roles := by
    rw [(h.afterCalls calls₁).roles, (h.afterCalls calls₂).roles, field_afterCalls,
      field_afterCalls, expressions_afterCalls, expressions_afterCalls]

/-- **Gates do not show private values.** Take any two sequences of calls after which an accepted
circuit is lowered. The gates agree on all selectors and on all wires, and the capacity is the same.
In each of the two runs a public slot is told by the vector of public inputs. So if the vectors are
equal, then the gates and their encodings are, whatever the witnesses are. -/
theorem lower_hides_witnesses {F : PrimeField} {es : List Expression}
    (hc : ofExpressions F es = .ok c) {calls₁ calls₂ : List (List (Value × Value))}
    {l₁ l₂ : LoweredCircuit} (h₁ : (c.afterCalls calls₁).lower = .ok l₁)
    (h₂ : (c.afterCalls calls₂).lower = .ok l₂) :
    List.Forall₂ Gate.SameButPublic l₁.gates l₂.gates ∧ l₁.paddedGates = l₂.paddedGates ∧
      List.Forall₂ (fun e g =>
        (c.afterCalls calls₁).SlotHolds l₁.publicInputs e g.selectors.pi) es l₁.gates ∧
      List.Forall₂ (fun e g =>
        (c.afterCalls calls₂).SlotHolds l₂.publicInputs e g.selectors.pi) es l₂.gates ∧
      (l₁.publicInputs = l₂.publicInputs →
        l₁.gates = l₂.gates ∧ l₁.selectorBytes = l₂.selectorBytes) := by
  have haccepted := accepted_ofExpressions hc
  have hes : c.expressions = es := by rw [(ofExpressions_ok hc).2]
  have hsame := sameProgram_afterCalls haccepted calls₁ calls₂
  have ha₁ := haccepted.afterCalls calls₁
  have ha₂ := haccepted.afterCalls calls₂
  have hslots₁ := ha₁.slotHolds_lower h₁
  have hslots₂ := ha₂.slotHolds_lower h₂
  rw [expressions_afterCalls, hes] at hslots₁ hslots₂
  have hagree := hsame.lower_agree ha₁ ha₂ h₁ h₂
  refine ⟨hagree.imp ?_, ?_, hslots₁, hslots₂, fun hinputs => ?_⟩
  · rintro g₁ g₂ ⟨g, x₁, x₂, rfl, rfl⟩
    exact g.sameButPublic_withPi x₁ x₂
  · rw [(ha₁.publicInputs_lower h₁).2, (ha₂.publicInputs_lower h₂).2]
    simp [paddedGates, size]
  · rw [← hinputs] at hslots₂
    have hgates : l₁.gates = l₂.gates := by
      rw [← List.forall₂_eq_eq_eq]
      refine hagree.mp ?_ (forall₂_join hslots₁ hslots₂)
      rintro g₁ g₂ ⟨g, x₁, x₂, rfl, rfl⟩ ⟨e, -, hx₁, hx₂⟩
      exact congrArg g.withPi (hsame.slot_unique hx₁ hx₂)
    exact ⟨hgates, by rw [LoweredCircuit.selectorBytes, hgates, LoweredCircuit.selectorBytes]⟩

/-- One call that gives `p` the same residue as the calls of the example, and no other value. -/
def exampleCallsPublic : List (List (Value × Value)) := [[(.text "p", .int 93)]]

theorem lower_exampleProgram_hides_witnesses :
    ∃ c l₁ l₂, ofExpressions exampleField exampleProgram = .ok c ∧
      (c.afterCalls exampleCalls).lower = .ok l₁ ∧
      (c.afterCalls exampleCallsPublic).lower = .ok l₂ ∧
      l₁.publicInputs = l₂.publicInputs ∧ l₁.gates = l₂.gates := by
  have hvalid : Expression.validate exampleProgram = .ok () := by rfl
  have hc := ofExpressions_eq_ok exampleField hvalid
  have hint : ∀ e ∈ exampleProgram, e.IsIntegral := by decide
  have haccepted := accepted_ofExpressions hc
  have hnumbers := holdsNumbers_ofExpressions hc
  obtain ⟨l₁, h₁⟩ := (haccepted.afterCalls exampleCalls).exists_lower
    (by rw [expressions_afterCalls]; exact hint) (holdsNumbers_afterCalls hnumbers (by decide))
  obtain ⟨l₂, h₂⟩ := (haccepted.afterCalls exampleCallsPublic).exists_lower
    (by rw [expressions_afterCalls]; exact hint) (holdsNumbers_afterCalls hnumbers (by decide))
  have hinputs : l₁.publicInputs = l₂.publicInputs := by
    rw [((haccepted.afterCalls _).publicInputs_lower h₁).1,
      ((haccepted.afterCalls _).publicInputs_lower h₂).1]
    decide +kernel
  obtain ⟨-, -, -, -, hgates⟩ := lower_hides_witnesses hc h₁ h₂
  exact ⟨_, l₁, l₂, hc, h₁, h₂, hinputs, (hgates hinputs).1⟩

end Circuit

end PlonkGates
