import PlonkGates.Circuit.Lowering
import PlonkGates.Proofs.Assembly
import PlonkGates.Proofs.Supply

/-!
# Adding a circuit to a constraint system

The witnesses of a circuit are appended in the order of its table and numbered from the first free
index on (`witnessesFrom_eq`); then each expression gives one gate, on its own
(`gatesFrom_eq_ok_iff`). So what a circuit adds is known from its gates one by one.

For an accepted circuit with integer coefficients nothing is missing: there is a layout, every wire
variable has a witness and every public input has its role. What remains is the public slot
(`gateOf_eq`), and filling it fails only if a text has to be negated.
-/

namespace PlonkGates

/-! ## Witnesses -/

/-- The indices that named witnesses get, from `index` on. -/
def numbered (index : Nat) : List (String × Element) → List (String × Int)
  | [] => []
  | (name, _) :: rest => (name, (index : Int)) :: numbered (index + 1) rest

theorem Circuit.witnessesFrom_eq {F : PrimeField} {index : Nat} {ws : List (String × Element)}
    (h : ∀ w ∈ ws, w.2.field = F) :
    witnessesFrom F index ws = (ws.map (·.2), .ok (numbered index ws)) := by
  induction ws generalizing index with
  | nil => rfl
  | cons w ws ih =>
    obtain ⟨name, x⟩ := w
    have hx : F.element (.element x) = .ok x :=
      PrimeField.element_self (h (name, x) List.mem_cons_self)
    rw [witnessesFrom, hx, ih fun u hu => h u (List.mem_cons_of_mem _ hu)]
    rfl

/-- The index of a name leads to its value in the list that the values are appended to. -/
theorem lookup_numbered {ws : List (String × Element)} {name : String} {x : Element}
    (h : ws.lookup name = some x) (before : List Element) :
    ∃ i : Nat, (numbered before.length ws).lookup name = some (i : Int) ∧
      (before ++ ws.map (·.2))[i]? = some x := by
  induction ws generalizing before with
  | nil => cases h
  | cons w ws ih =>
    obtain ⟨first, y⟩ := w
    rw [List.lookup_cons] at h
    rw [numbered, List.lookup_cons]
    split at h
    · next hname =>
      cases h
      exact ⟨before.length, rfl, by simp⟩
    · next hname =>
      -- the value that is passed joins those before
      obtain ⟨i, hi, hx⟩ := ih h (before ++ [y])
      exact ⟨i, by simpa using hi, by simpa using hx⟩

theorem lookup_numbered_bounds {index : Nat} {ws : List (String × Element)} {name : String}
    {i : Int} (h : (numbered index ws).lookup name = some i) :
    (index : Int) ≤ i ∧ i < index + ws.length := by
  induction ws generalizing index with
  | nil => cases h
  | cons w ws ih =>
    obtain ⟨first, x⟩ := w
    rw [numbered, List.lookup_cons] at h
    rw [List.length_cons]
    cases hname : name == first with
    | true =>
      rw [hname] at h
      cases h
      omega
    | false =>
      rw [hname] at h
      have hbounds := ih h
      omega

/-- **Names are numbered by their places.** -/
theorem lookup_numbered_iff {index : Nat} {ws : List (String × Element)}
    (hnodup : (ws.map (·.1)).Nodup) {name : String} {i : Int} :
    (numbered index ws).lookup name = some i ↔
      ∃ (j : Nat) (x : Element), i = (index + j : Nat) ∧ ws[j]? = some (name, x) := by
  induction ws generalizing index with
  | nil => simp [numbered]
  | cons w ws ih =>
    obtain ⟨first, y⟩ := w
    obtain ⟨hout, hnodup⟩ := List.nodup_cons.mp hnodup
    rw [numbered, List.lookup_cons]
    by_cases hname : name = first
    · subst hname
      rw [beq_self_eq_true]
      constructor
      · intro h
        cases h
        exact ⟨0, y, rfl, rfl⟩
      · rintro ⟨j, x, rfl, hj⟩
        cases j with
        | zero => rfl
        | succ j =>
          rw [List.getElem?_cons_succ] at hj
          exact absurd (List.mem_map_of_mem (f := (·.1)) (List.mem_of_getElem? hj)) hout
    · have hbeq : (name == first) = false := by simpa using hname
      rw [hbeq]
      refine (ih hnodup).trans ⟨?_, ?_⟩
      · rintro ⟨j, x, rfl, hj⟩
        exact ⟨j + 1, x, by omega, hj⟩
      · rintro ⟨j, x, rfl, hj⟩
        cases j with
        | zero =>
          cases hj
          exact absurd rfl hname
        | succ j => exact ⟨j, x, by omega, hj⟩

/-- A variable is found under its name among those that it is kept with. -/
theorem VariableTable.lookup_filter {vs : List Variable} {keep : Variable → Bool} {name : String}
    {v : Variable} (h : vs.find? (·.name = name) = some v) (hkeep : keep v = true) :
    ((vs.filter keep).map fun v => (v.name, v.value)).lookup name = some v.value := by
  induction vs with
  | nil => cases h
  | cons u us ih =>
    by_cases hname : u.name = name
    · rw [List.find?_cons_of_pos (by simpa using hname)] at h
      cases h
      rw [List.filter_cons_of_pos hkeep, List.map_cons, hname, List.lookup_cons_self]
    · rw [List.find?_cons_of_neg (by simpa using hname)] at h
      by_cases hu : keep u = true
      · have hbeq : (name == u.name) = false := by simpa using Ne.symm hname
        rw [List.filter_cons_of_pos hu, List.map_cons, List.lookup_cons, hbeq]
        exact ih h
      · rw [List.filter_cons_of_neg hu]
        exact ih h

theorem VariableTable.lookup_witnesses {t : VariableTable} {name : String} {v : Variable}
    (h : t.find? name = some v) (hrole : v.role = .witness) :
    t.witnesses.lookup name = some v.value :=
  lookup_filter h (by simp [Variable.isPublic, hrole])

theorem VariableTable.field_witnesses {t : VariableTable} {F : PrimeField}
    (h : ∀ v ∈ t.entries, v.value.field = F) : ∀ w ∈ t.witnesses, w.2.field = F := by
  intro w hw
  obtain ⟨v, hv, rfl⟩ := List.mem_map.mp hw
  exact h v (List.mem_filter.mp hv).1

/-! ## Gates -/

theorem mapError_eq_ok {ε α : Type} {x : Except ε α} {f : ε → ε} {a : α} :
    x.mapError f = .ok a ↔ x = .ok a := by
  cases x with
  | error e => simp [Except.mapError]
  | ok b => simp [Except.mapError]

namespace Circuit

variable {c : Circuit} {s : ConstraintSystem} {ws : List (String × Int)}

/-- The gate that an expression of a circuit becomes in a system. -/
def gateOf (c : Circuit) (s : ConstraintSystem) (ws : List (String × Int)) (e : Expression) :
    Except Fault Gate := do
  let layout ← Layout.ofExpression e
  let d ← Draft.ofLayout layout c.table ws c.field
  s.gateOf d

/-- The position of an expression enters only the message of a fault. -/
theorem draft_bind_eq_ok {index : Nat} {e : Expression} {g : Gate} :
    (c.draft ws index e).bind s.gateOf = .ok g ↔ c.gateOf s ws e = .ok g := by
  have hdraft : (c.draft ws index e).bind s.gateOf = .ok g ↔
      ∃ d, c.draft ws index e = .ok d ∧ s.gateOf d = .ok g := bind_eq_ok
  rw [hdraft, gateOf]
  simp only [draft, mapError_eq_ok, bind_eq_ok]
  constructor
  · rintro ⟨d, ⟨layout, hlayout, hd⟩, hg⟩
    exact ⟨layout, hlayout, d, hd, hg⟩
  · rintro ⟨layout, hlayout, d, hd, hg⟩
    exact ⟨d, ⟨layout, hlayout, hd⟩, hg⟩

/-- **A circuit adds one gate for each expression, in order, each on its own.** -/
theorem gatesFrom_eq_ok_iff {index : Nat} {es : List Expression} {gates : List Gate} :
    gatesFrom c s ws index es = (gates, .ok ()) ↔
      List.Forall₂ (fun e g => c.gateOf s ws e = .ok g) es gates := by
  -- positions differ along the list, and no gate depends on its own
  induction es generalizing index gates with
  | nil => simp [gatesFrom, eq_comm]
  | cons e es ih =>
    rw [List.forall₂_cons_left_iff, gatesFrom]
    constructor
    · intro h
      split at h
      · cases h
      · next g hg =>
        obtain ⟨rfl, hresult⟩ := Prod.mk.inj h
        exact ⟨g, _, draft_bind_eq_ok.mp hg, ih.mp (Prod.ext rfl hresult), rfl⟩
    · rintro ⟨g, rest, hg, hrest, rfl⟩
      rw [draft_bind_eq_ok.mpr hg, ih.mpr hrest]

/-- The fault that ends the gates is that of one of the expressions. -/
theorem exists_fault_of_gatesFrom {index : Nat} {es : List Expression} {fault : Fault}
    (h : (gatesFrom c s ws index es).2 = .error fault) :
    ∃ i, ∃ e ∈ es, (c.draft ws i e).bind s.gateOf = .error fault := by
  induction es generalizing index with
  | nil => cases h
  | cons e es ih =>
    rw [gatesFrom] at h
    split at h
    · next hfault =>
      cases h
      exact ⟨index, e, List.mem_cons_self, hfault⟩
    · obtain ⟨i, d, hd, hfault⟩ := ih h
      exact ⟨i, d, List.mem_cons_of_mem e hd, hfault⟩

/-! ## Systems -/

/-- The system with the witnesses of a circuit appended. -/
def withWitnesses (c : Circuit) (s : ConstraintSystem) : ConstraintSystem :=
  { s with witnesses := s.witnesses ++ c.table.witnesses.map (·.2) }

/-- The indices of the witnesses of a circuit in a system that they are appended to. -/
def indices (c : Circuit) (s : ConstraintSystem) : List (String × Int) :=
  numbered s.witnesses.length c.table.witnesses

/-- What adding a circuit comes to: all witnesses, then the gates up to the first that fails. -/
theorem addTo_eq (hfield : s.field = c.field)
    (hin : ∀ v ∈ c.table.entries, v.value.field = c.field) :
    c.addTo s =
      let added := gatesFrom c (c.withWitnesses s) (c.indices s) 0 c.expressions
      ({ c.withWitnesses s with gates := s.gates ++ added.1 }, added.2) := by
  rw [addTo, if_pos hfield, witnessesFrom_eq (hfield ▸ VariableTable.field_witnesses hin)]
  rfl

/-- **Lowering returns exactly if every expression has a gate.** -/
theorem lower_eq_ok_iff (hin : ∀ v ∈ c.table.entries, v.value.field = c.field)
    {l : LoweredCircuit} :
    c.lower = .ok l ↔ ∃ gates,
      List.Forall₂ (fun e g => c.gateOf (c.withWitnesses (.empty c.field))
        (c.indices (.empty c.field)) e = .ok g) c.expressions gates ∧
      l = ⟨{ c.withWitnesses (.empty c.field) with gates := gates }, c.publicInputs,
        c.paddedGates⟩ := by
  rw [lower, addTo_eq rfl hin]
  constructor
  · intro h
    split at h
    · cases h
    · next s hadded =>
      obtain ⟨rfl, hok⟩ := Prod.mk.inj hadded
      split at h
      · cases h
        exact ⟨_, gatesFrom_eq_ok_iff.mp (Prod.ext rfl hok), rfl⟩
      · cases h
  · rintro ⟨gates, hgates, rfl⟩
    have hlength := hgates.length_eq
    rw [gatesFrom_eq_ok_iff.mpr hgates]
    simp [ConstraintSystem.empty, hlength]

/-! ## Gates of accepted circuits -/

/-- Witnesses on wires are among those that were appended. -/
theorem Accepted.exists_index (h : c.Accepted) {e : Expression} (he : e ∈ c.expressions)
    {name : String} (hname : name ∈ e.wireNames) (s : ConstraintSystem) :
    ∃ (i : Nat) (v : Variable), c.table.find? name = some v ∧
      (c.indices s).lookup name = some (i : Int) ∧
      (c.withWitnesses s).witnesses[i]? = some v.value := by
  obtain ⟨v, hv, hrole, -⟩ := h.exists_witness he hname
  obtain ⟨i, hi, hx⟩ := lookup_numbered (VariableTable.lookup_witnesses hv hrole) s.witnesses
  exact ⟨i, v, hv, hi, hx⟩

/-- The index on a wire leads to the value of the variable there, or to the first witness. -/
def Attached (c : Circuit) (s : ConstraintSystem) (layout : Layout) (wire : Wire) (i : Nat) :
    Prop :=
  (c.withWitnesses s).wireIndex (Draft.indexOn layout (c.indices s) wire) = .ok i ∧
    match layout.bindings.lookup wire with
    | some name => ∃ v, c.table.find? name = some v ∧
        (c.withWitnesses s).witnesses[i]? = some v.value
    | none => i = 0

theorem Accepted.exists_attached (h : c.Accepted) {e : Expression} (he : e ∈ c.expressions)
    {layout : Layout} (hlayout : layout.Describes e) (s : ConstraintSystem) (wire : Wire) :
    ∃ i, c.Attached s layout wire i := by
  unfold Attached Draft.indexOn
  cases hbound : layout.bindings.lookup wire with
  | none => exact ⟨0, rfl, rfl⟩
  | some name =>
    -- what is bound to a wire is a wire variable, so it has a witness
    have hname := hlayout.bound _ (VariableTable.mem_of_lookup hbound)
    obtain ⟨i, v, hv, hi, hx⟩ := h.exists_index he hname s
    obtain ⟨hlt, -⟩ := List.getElem?_eq_some_iff.mp hx
    refine ⟨i, ?_, v, hv, hx⟩
    simp only [hi, ConstraintSystem.wireIndex]
    rw [if_pos ⟨by omega, by exact_mod_cast hlt⟩]
    simp

/-- The frame of an accepted expression is there, so only the public slot can fail. -/
theorem Accepted.ofLayout_eq (h : c.Accepted) {e : Expression} (he : e ∈ c.expressions)
    (hint : e.IsIntegral) {layout : Layout} (hlayout : layout.Describes e)
    (s : ConstraintSystem) :
    Draft.ofLayout layout c.table (c.indices s) c.field =
      (c.table.publicSlot c.field e.rhs).map
        (Draft.ofWeights c.field layout.weights (Draft.indexOn layout (c.indices s))).withPi := by
  have hfound : ∀ x ∈ layout.bindings, ((c.indices s).lookup x.2).isSome := by
    intro x hx
    obtain ⟨i, v, -, hi, -⟩ := h.exists_index he (hlayout.bound x hx) s
    rw [hi]
    rfl
  rw [Draft.ofLayout_eq, hlayout.rhs,
    Draft.frame_eq_ok (hlayout.isIntegral hint) hlayout.nodup hfound]
  cases c.table.publicSlot c.field e.rhs with
  | error fault => rfl
  | ok x => rfl

/-- A gate with its public slot filled in. -/
def gateWith (F : PrimeField) (layout : Layout) (a b o : Nat) (x : Element) : Gate :=
  ⟨{ layout.weights.selectors F with pi := x }, a, b, o⟩

theorem gateOf_withPi {layout : Layout} {a b o : Nat} (hfield : s.field = c.field)
    (ha : c.Attached s layout .a a) (hb : c.Attached s layout .b b)
    (ho : c.Attached s layout .o o) (x : Element) :
    (c.withWitnesses s).gateOf
        ((Draft.ofWeights c.field layout.weights (Draft.indexOn layout (c.indices s))).withPi x) =
      .ok (gateWith c.field layout a b o x) := by
  have hsame : c.field = (c.withWitnesses s).field := hfield.symm
  simp only [ConstraintSystem.gateOf, Draft.withPi, Draft.ofWeights, if_pos hsame, ha.1, hb.1,
    ho.1, ok_bind]
  rfl

/-- **The gate of an accepted expression is known but for its public slot.** -/
theorem Accepted.gateOf_eq (h : c.Accepted) (hfield : s.field = c.field) {e : Expression}
    (he : e ∈ c.expressions) (hint : e.IsIntegral) :
    ∃ layout a b o, layout.Describes e ∧
      c.Attached s layout .a a ∧ c.Attached s layout .b b ∧ c.Attached s layout .o o ∧
      c.gateOf (c.withWitnesses s) (c.indices s) e =
        (c.table.publicSlot c.field e.rhs).map (gateWith c.field layout a b o) ∧
      ∀ index, (c.draft (c.indices s) index e).bind (c.withWitnesses s).gateOf =
        ((c.table.publicSlot c.field e.rhs).mapError (inExpression index e)).map
          (gateWith c.field layout a b o) := by
  obtain ⟨layout, hok⟩ := Layout.exists_layout (h.fits e he)
  have hlayout := Layout.describes_of_ok hok
  obtain ⟨a, ha⟩ := h.exists_attached he hlayout s .a
  obtain ⟨b, hb⟩ := h.exists_attached he hlayout s .b
  obtain ⟨o, ho⟩ := h.exists_attached he hlayout s .o
  refine ⟨layout, a, b, o, hlayout, ha, hb, ho, ?_, fun index => ?_⟩
  · rw [gateOf, hok, ok_bind, h.ofLayout_eq he hint hlayout]
    cases c.table.publicSlot c.field e.rhs with
    | error fault => rfl
    | ok x => exact gateOf_withPi hfield ha hb ho x
  · rw [draft, hok, ok_bind, h.ofLayout_eq he hint hlayout]
    cases c.table.publicSlot c.field e.rhs with
    | error fault => rfl
    | ok x => exact gateOf_withPi hfield ha hb ho x

/-! ## The public slot -/

/-- Filling the public slot fails only if a text has to be negated. -/
theorem Accepted.publicSlot_fault (h : c.Accepted) {e : Expression} (he : e ∈ c.expressions)
    {fault : Fault} (hfault : c.table.publicSlot c.field e.rhs = .error fault) :
    (∃ v ∈ c.table.entries, ¬ v.value.IsNumber) ∧ fault = .unaryOperand "str" := by
  cases hp : e.rhs with
  | none => rw [hp] at hfault; cases hfault
  | some p =>
    obtain ⟨v, hv, hrole, hfield⟩ := h.exists_public he hp
    rw [hp, VariableTable.publicSlot, hv] at hfault
    simp only [if_pos hrole, PrimeField.signedElement, PrimeField.element_self hfield,
      ok_bind] at hfault
    split at hfault
    · cases hvalue : v.value with
      | number x => rw [hvalue] at hfault; cases hfault
      | text F content =>
        rw [hvalue] at hfault
        cases hfault
        exact ⟨⟨v, VariableTable.mem_of_find? hv, by rw [hvalue]; exact id⟩, rfl⟩
    · cases hfault

theorem Accepted.exists_publicSlot (h : c.Accepted) (hnumbers : c.table.HoldsNumbers)
    {e : Expression} (he : e ∈ c.expressions) :
    ∃ x, c.table.publicSlot c.field e.rhs = .ok x := by
  cases hslot : c.table.publicSlot c.field e.rhs with
  | ok x => exact ⟨x, rfl⟩
  | error fault =>
    obtain ⟨⟨v, hv, htext⟩, -⟩ := h.publicSlot_fault he hslot
    exact absurd (hnumbers v hv) htext

/-! ## Nothing is missing -/

theorem Accepted.exists_gateOf (h : c.Accepted) (hfield : s.field = c.field)
    (hint : ∀ e ∈ c.expressions, e.IsIntegral) (hnumbers : c.table.HoldsNumbers) :
    ∃ gates, List.Forall₂ (fun e g => c.gateOf (c.withWitnesses s) (c.indices s) e = .ok g)
      c.expressions gates := by
  refine exists_forall₂ fun e he => ?_
  obtain ⟨layout, a, b, o, -, -, -, -, hgate, -⟩ := h.gateOf_eq hfield he (hint e he)
  obtain ⟨x, hx⟩ := h.exists_publicSlot hnumbers he
  exact ⟨gateWith c.field layout a b o x, by rw [hgate, hx]; rfl⟩

theorem Accepted.exists_lower (h : c.Accepted) (hint : ∀ e ∈ c.expressions, e.IsIntegral)
    (hnumbers : c.table.HoldsNumbers) : ∃ l, c.lower = .ok l := by
  obtain ⟨gates, hgates⟩ := h.exists_gateOf (s := .empty c.field) rfl hint hnumbers
  exact ⟨_, (lower_eq_ok_iff h.inField).mpr ⟨gates, hgates, rfl⟩⟩

/-- A circuit is lowered, whatever was supplied to it, unless it was a text. -/
theorem exists_lower_afterCalls {F : PrimeField} {es : List Expression}
    {calls : List (List (Value × Value))} (hc : ofExpressions F es = .ok c)
    (hint : ∀ e ∈ es, e.IsIntegral) (htext : TextFree calls) :
    ∃ l, (c.afterCalls calls).lower = .ok l := by
  refine ((accepted_ofExpressions hc).afterCalls calls).exists_lower ?_
    (holdsNumbers_afterCalls (holdsNumbers_ofExpressions hc) htext)
  rwa [expressions_afterCalls, expressions_ofExpressions hc]

/-- Adding an accepted circuit can only fail at a text that has to be negated. -/
theorem Accepted.fault_of_addTo (h : c.Accepted) (hfield : s.field = c.field)
    (hint : ∀ e ∈ c.expressions, e.IsIntegral) {fault : Fault}
    (hfault : (c.addTo s).2 = .error fault) : fault = .unaryOperand "str" := by
  -- the witnesses are all appended, so the fault is that of a gate
  rw [addTo_eq hfield h.inField] at hfault
  obtain ⟨i, e, he, hfault⟩ := exists_fault_of_gatesFrom hfault
  obtain ⟨layout, a, b, o, -, -, -, -, -, hdraft⟩ := h.gateOf_eq hfield he (hint e he)
  rw [hdraft] at hfault
  cases hslot : c.table.publicSlot c.field e.rhs with
  | ok x => rw [hslot] at hfault; cases hfault
  | error cause =>
    obtain ⟨-, rfl⟩ := h.publicSlot_fault he hslot
    rw [hslot] at hfault
    cases hfault
    rfl

/-- **A program that keeps the rules is added to every system over its field and is lowered,
whatever values are supplied.** The one fault that is left is not one of the program: a text was
supplied where a residue is meant. -/
theorem addTo_ok_of_validate {es : List Expression} (F : PrimeField)
    (hvalid : Expression.validate es = .ok ()) (hint : ∀ e ∈ es, e.IsIntegral) :
    ∃ c, ofExpressions F es = .ok c ∧
      ∀ (calls : List (List (Value × Value))) (s : ConstraintSystem), s.field = F →
        (TextFree calls →
          ((c.afterCalls calls).addTo s).2 = .ok () ∧
          ((c.afterCalls calls).addTo s).1.gates.length = s.gates.length + es.length ∧
          ∃ l, (c.afterCalls calls).lower = .ok l) ∧
        ∀ fault, ((c.afterCalls calls).addTo s).2 = .error fault → fault = .unaryOperand "str" := by
  have hc := ofExpressions_eq_ok F hvalid
  refine ⟨_, hc, fun calls s hfield => ?_⟩
  generalize hstart : (⟨F, es, VariableTable.derive F es⟩ : Circuit) = c at hc
  have hF : c.field = F := by rw [← hstart]
  have hes : c.expressions = es := by rw [← hstart]
  have haccepted := (accepted_ofExpressions hc).afterCalls calls
  have hsame : s.field = (c.afterCalls calls).field := by rw [field_afterCalls, hF, hfield]
  have hint' : ∀ e ∈ (c.afterCalls calls).expressions, e.IsIntegral := by
    rw [expressions_afterCalls, hes]
    exact hint
  -- without texts all values are residues, and then every expression has its gate
  refine ⟨fun htext => ?_, fun fault => haccepted.fault_of_addTo hsame hint'⟩
  have hnumbers := holdsNumbers_afterCalls (holdsNumbers_ofExpressions hc) htext
  obtain ⟨gates, hgates⟩ := haccepted.exists_gateOf hsame hint' hnumbers
  have hadded := addTo_eq hsame haccepted.inField
  rw [gatesFrom_eq_ok_iff.mpr hgates] at hadded
  refine ⟨by rw [hadded], ?_, haccepted.exists_lower hint' hnumbers⟩
  rw [hadded, List.length_append, ← hgates.length_eq, expressions_afterCalls, hes]

/-- The field with 97 elements, for examples. -/
def exampleField : PrimeField := ⟨97, by decide⟩

/-- The program `2a*b - 9c + a = -p; b - c = 0`, for examples. -/
def exampleProgram : List Expression :=
  [⟨some ⟨false, .int 2, "a", "b"⟩, [⟨true, .int 9, "c"⟩, ⟨false, .int 1, "a"⟩],
    some ⟨true, "p"⟩, none⟩,
   ⟨none, [⟨false, .int 1, "b"⟩, ⟨true, .int 1, "c"⟩], none, none⟩]

/-- Two calls that succeed, with one between them that fails at an unknown name. -/
def exampleCalls : List (List (Value × Value)) :=
  [[(.text "a", .int 5), (.text "p", .int (-4))], [(.text "b", .int 1), (.text "z", .int 2)],
    [(.text "b", .int 100), (.text "c", .element (.number (exampleField.reduce 3)))]]

theorem addTo_ok_exampleProgram :
    Expression.validate exampleProgram = .ok () ∧ (∀ e ∈ exampleProgram, e.IsIntegral) ∧
      TextFree exampleCalls ∧
      ∃ c, ofExpressions exampleField exampleProgram = .ok c ∧
        ((c.afterCalls exampleCalls).addTo (.empty exampleField)).2 = .ok () ∧
        ∃ l, (c.afterCalls exampleCalls).lower = .ok l := by
  have hvalid : Expression.validate exampleProgram = .ok () := by rfl
  obtain ⟨c, hc, h⟩ := addTo_ok_of_validate exampleField hvalid (by decide)
  have hadded := (h exampleCalls (.empty exampleField) rfl).1 (by decide)
  exact ⟨hvalid, by decide, by decide, c, hc, hadded.1, hadded.2.2⟩

end Circuit

end PlonkGates
