import PlonkGates.Circuit.Basic
import PlonkGates.Proofs.History
import PlonkGates.Proofs.Meaning

/-!
# Circuits under supplied values

A circuit is made of a program that keeps the rules. After that, calls supply values for its
variables; each of them succeeds as a whole or changes nothing. `Circuit.Accepted` is what every
circuit satisfies that is reached in this way (`accepted_ofExpressions`, `Accepted.afterCalls`): its
program keeps the rules, and its table has the names and roles that were derived from the program,
with values in the field of the circuit.
-/

namespace PlonkGates

/-- The integers that the values in a table stand for. A name that is not there counts as zero. -/
def VariableTable.valuation (t : VariableTable) (name : String) : Int :=
  ((t.find? name).map (·.value.toInt)).getD 0

/-- All values in a table are residues. -/
def VariableTable.HoldsNumbers (t : VariableTable) : Prop := ∀ v ∈ t.entries, v.value.IsNumber

namespace Circuit

variable {c c' : Circuit}

/-! ## Calls -/

/-- The circuit after a call that supplies values, whether it succeeds or fails. -/
def call (c : Circuit) (pairs : List (Value × Value)) : Circuit := (c.assign pairs).1

/-- The circuit after calls that succeed or fail, one after the other. -/
def afterCalls (c : Circuit) (calls : List (List (Value × Value))) : Circuit := calls.foldl call c

/-- No supplied value is an element that holds a text. -/
def TextFree (calls : List (List (Value × Value))) : Prop :=
  ∀ pairs ∈ calls, ∀ pair ∈ pairs, pair.2.holdsText = false

instance : DecidablePred TextFree := fun calls =>
  inferInstanceAs (Decidable (∀ pairs ∈ calls, ∀ pair ∈ pairs, pair.2.holdsText = false))

theorem setValues_eq (c : Circuit) (pairs : List (Value × Value)) :
    c.setValues pairs = (c.table.setValues pairs).map fun table => { c with table := table } := by
  rw [setValues, assign, VariableTable.setValues]
  cases (c.table.assign pairs).2 with
  | error fault => rfl
  | ok _ => rfl

theorem setValues_ok {pairs : List (Value × Value)} (h : c.setValues pairs = .ok c') :
    ∃ table, c.table.setValues pairs = .ok table ∧ c' = { c with table := table } := by
  rw [setValues_eq] at h
  obtain ⟨table, htable, rfl⟩ := map_eq_ok.mp h
  exact ⟨table, htable, rfl⟩

/-- A call leaves what it returns, and it leaves the circuit as it was if it fails. -/
theorem call_cases (c : Circuit) (pairs : List (Value × Value)) :
    (∃ fault, c.setValues pairs = .error fault) ∧ c.call pairs = c ∨
      c.setValues pairs = .ok (c.call pairs) := by
  rw [setValues_eq, call, assign]
  cases hset : c.table.setValues pairs with
  | error fault =>
    rw [(VariableTable.assign_of_error hset).2]
    exact Or.inl ⟨⟨fault, rfl⟩, rfl⟩
  | ok table =>
    rw [VariableTable.assign_of_ok hset]
    exact Or.inr rfl

/-- **What every successful call keeps is kept by all calls.** -/
theorem afterCalls_induction {P : Circuit → Prop} {calls : List (List (Value × Value))} (h : P c)
    (hstep : ∀ pairs ∈ calls, ∀ c c', P c → c.setValues pairs = .ok c' → P c') :
    P (c.afterCalls calls) := by
  induction calls generalizing c with
  | nil => exact h
  | cons pairs calls ih =>
    rw [afterCalls, List.foldl_cons]
    refine ih ?_ fun later hlater => hstep later (List.mem_cons_of_mem pairs hlater)
    rcases call_cases c pairs with ⟨-, hcall⟩ | hcall
    · rwa [hcall]
    · exact hstep pairs List.mem_cons_self c _ h hcall

/-! ## Accepted circuits -/

/-- A circuit that was made of a program that keeps the rules, whatever was supplied to it since. -/
structure Accepted (c : Circuit) : Prop where
  fits : ∀ e ∈ c.expressions, e.Fits
  rolesAgree : Expression.RolesAgree c.expressions
  field : c.table.field = c.field
  roles : c.table.roles = (VariableTable.derive c.field c.expressions).roles
  inField : ∀ v ∈ c.table.entries, v.value.field = c.field

theorem ofExpressions_ok {F : PrimeField} {es : List Expression}
    (h : ofExpressions F es = .ok c) :
    Expression.validate es = .ok () ∧ c = ⟨F, es, VariableTable.derive F es⟩ := by
  obtain ⟨_, hvalid, h⟩ := bind_eq_ok.mp h
  exact ⟨hvalid, (Except.ok.inj h).symm⟩

theorem ofExpressions_eq_ok {es : List Expression} (F : PrimeField)
    (h : Expression.validate es = .ok ()) :
    ofExpressions F es = .ok ⟨F, es, VariableTable.derive F es⟩ := by
  rw [ofExpressions, h, ok_bind]

theorem expressions_ofExpressions {F : PrimeField} {es : List Expression}
    (h : ofExpressions F es = .ok c) : c.expressions = es := by
  rw [(ofExpressions_ok h).2]

/-- Circuits are made of the programs that keep the rules. -/
theorem exists_ofExpressions_iff {F : PrimeField} {es : List Expression} :
    (∃ c, ofExpressions F es = .ok c) ↔ Expression.validate es = .ok () :=
  ⟨fun ⟨_, hc⟩ => (ofExpressions_ok hc).1, fun hvalid => ⟨_, ofExpressions_eq_ok F hvalid⟩⟩

theorem accepted_ofExpressions {F : PrimeField} {es : List Expression}
    (h : ofExpressions F es = .ok c) : c.Accepted := by
  obtain ⟨hvalid, rfl⟩ := ofExpressions_ok h
  obtain ⟨hfits, hroles⟩ := Expression.validate_eq_ok_iff.mp hvalid
  refine ⟨hfits, hroles, rfl, rfl, fun v hv => ?_⟩
  rw [VariableTable.value_mem_derive hv]
  rfl

namespace Accepted

theorem setValues {pairs : List (Value × Value)} (h : c.Accepted)
    (hset : c.setValues pairs = .ok c') : c'.Accepted := by
  obtain ⟨table, htable, rfl⟩ := setValues_ok hset
  refine ⟨h.fits, h.rolesAgree, (VariableTable.field_setValues htable).trans h.field,
    (VariableTable.roles_setValues htable).trans h.roles, ?_⟩
  refine VariableTable.forall_value_setValues (P := (·.field = c.field)) htable h.inField
    fun pair _ x hx => ?_
  exact (PrimeField.element_ok hx).1.trans h.field

/-- **Circuits stay accepted under every sequence of calls.** -/
theorem afterCalls (h : c.Accepted) (calls : List (List (Value × Value))) :
    (c.afterCalls calls).Accepted :=
  afterCalls_induction h fun _ _ _ _ hc hset => hc.setValues hset

/-! The names of an accepted program are in the table with the roles in which they are used. -/

theorem exists_variable (h : c.Accepted) {name : String} {role : Role}
    (hmention : (name, role) ∈ c.expressions.flatMap VariableTable.mentions) :
    ∃ v, c.table.find? name = some v ∧ v.role = role ∧ v.value.field = c.field := by
  have hrole : (c.table.find? name).map (·.role) = some role := by
    rw [VariableTable.role_find?, h.roles, ← VariableTable.role_find?, VariableTable.find?_derive,
      VariableTable.lookup_mentions h.rolesAgree hmention]
    rfl
  obtain ⟨v, hv, hvr⟩ := Option.map_eq_some_iff.mp hrole
  exact ⟨v, hv, hvr, h.inField v (VariableTable.mem_of_find? hv)⟩

theorem exists_witness (h : c.Accepted) {e : Expression} (he : e ∈ c.expressions) {name : String}
    (hname : name ∈ e.wireNames) :
    ∃ v, c.table.find? name = some v ∧ v.role = .witness ∧ v.value.field = c.field :=
  h.exists_variable (List.mem_flatMap.mpr
    ⟨e, he, VariableTable.mem_mentions.mpr (Or.inr ⟨rfl, hname⟩)⟩)

theorem exists_public (h : c.Accepted) {e : Expression} (he : e ∈ c.expressions) {p : PublicTerm}
    (hp : e.rhs = some p) :
    ∃ v, c.table.find? p.name = some v ∧ v.role = .publicInput ∧ v.value.field = c.field :=
  h.exists_variable (List.mem_flatMap.mpr
    ⟨e, he, VariableTable.mem_mentions.mpr (Or.inl ⟨rfl, p, hp, rfl⟩)⟩)

end Accepted

/-! ## What calls leave as it is -/

@[simp] theorem field_afterCalls (c : Circuit) (calls : List (List (Value × Value))) :
    (c.afterCalls calls).field = c.field :=
  afterCalls_induction (P := fun d => d.field = c.field) rfl fun _ _ d d' hd hset => by
    obtain ⟨table, -, rfl⟩ := setValues_ok hset
    exact hd

@[simp] theorem expressions_afterCalls (c : Circuit) (calls : List (List (Value × Value))) :
    (c.afterCalls calls).expressions = c.expressions :=
  afterCalls_induction (P := fun d => d.expressions = c.expressions) rfl fun _ _ d d' hd hset => by
    obtain ⟨table, -, rfl⟩ := setValues_ok hset
    exact hd

/-- Calls on a circuit are calls on its table. -/
@[simp] theorem table_afterCalls (c : Circuit) (calls : List (List (Value × Value))) :
    (c.afterCalls calls).table = c.table.afterCalls calls := by
  induction calls generalizing c with
  | nil => rfl
  | cons pairs calls ih =>
    rw [afterCalls, List.foldl_cons, VariableTable.afterCalls, List.foldl_cons]
    exact ih (c.call pairs)

/-- Values stay residues as long as no text is supplied in place of one. -/
theorem holdsNumbers_setValues {pairs : List (Value × Value)} (h : c.table.HoldsNumbers)
    (htext : ∀ pair ∈ pairs, pair.2.holdsText = false) (hset : c.setValues pairs = .ok c') :
    c'.table.HoldsNumbers := by
  obtain ⟨table, htable, rfl⟩ := setValues_ok hset
  refine VariableTable.forall_value_setValues htable h fun pair hpair x hx => ?_
  exact (PrimeField.element_ok hx).2 (htext pair hpair)

theorem holdsNumbers_afterCalls {calls : List (List (Value × Value))}
    (h : c.table.HoldsNumbers) (hcalls : TextFree calls) :
    (c.afterCalls calls).table.HoldsNumbers :=
  afterCalls_induction (P := fun d => d.table.HoldsNumbers) h
    fun pairs hpairs _ _ hd hset => holdsNumbers_setValues hd (hcalls pairs hpairs) hset

theorem holdsNumbers_ofExpressions {F : PrimeField} {es : List Expression}
    (h : ofExpressions F es = .ok c) : c.table.HoldsNumbers := by
  obtain ⟨-, rfl⟩ := ofExpressions_ok h
  intro v hv
  rw [VariableTable.value_mem_derive hv]
  trivial

end Circuit

end PlonkGates
