import PlonkGates.Proofs.Compiling
import PlonkGates.Proofs.Encoding
import PlonkGates.Proofs.Privacy
import PlonkGates.Proofs.Recording

/-!
# Padded tables

A system is handed on as two tables, one of selectors and one of witness indices, which are filled
up with rows of zeros. Read row by row the two tables have the values of the gates and then zeros
(`ConstraintSystem.describes_padded`). Whatever makes room for tables, an array for one is made
exactly if the table has at least a row for each gate and room is granted
(`ConstraintSystem.tables_describe_gates`). The capacity of a circuit is exponential in the number
of its equations, so no allocator that counts rows grants room for the tables of a circuit of 63
equations (`Circuit.tables_without_room`).
-/

namespace PlonkGates

namespace Allocator

variable {a : Allocator} {t : TableShape}

/-- There is room for the table. -/
def Grants (a : Allocator) (t : TableShape) : Prop := a.refusal? t = none

instance (a : Allocator) : DecidablePred a.Grants := fun t =>
  inferInstanceAs (Decidable (a.refusal? t = none))

/-- Rows are counted by an index, and a table with more rows than that is turned down for it. -/
def CountsRows (a : Allocator) : Prop :=
  ∀ t, Limits.index < t.rows → a.refusal? t = some .tooManyRows

theorem countsRows_ofMemory (memory : Nat) : (ofMemory memory).CountsRows :=
  fun _ hrows => if_pos hrows

theorem reserve_eq_ok_iff : a.reserve t = .ok () ↔ a.Grants t := by
  rw [reserve, Grants]
  cases a.refusal? t <;> simp

theorem CountsRows.reserve (ha : a.CountsRows) (hrows : Limits.index < t.rows) :
    a.reserve t = .error (.table .tooManyRows) := by
  rw [Allocator.reserve, ha t hrows]

end Allocator

namespace ConstraintSystem

variable {F : PrimeField} {s : ConstraintSystem}

/-! ## Rows -/

/-- The value of a row of selectors and a row of witness indices: the left side of the gate over the
integers, with the values on the wires read from the witnesses, modulo the order. -/
def rowValue (s : ConstraintSystem) : List Element × List Nat → Option Int
  | ([qm, ql, qr, qo, qc, pi], [a, b, o]) => do
    let x ← s.witnesses[a]?
    let y ← s.witnesses[b]?
    let z ← s.witnesses[o]?
    return Weights.eval ⟨qm.toInt, ql.toInt, qr.toInt, qo.toInt, qc.toInt, pi.toInt⟩
      x.toInt y.toInt z.toInt % s.field.order
  | _ => none

/-- Two tables that say, row by row, what a system says: they have the values of its gates in order
and then zeros. So they are satisfied exactly if the system is. -/
structure Describes (s : ConstraintSystem) (selectors : List (List Element))
    (wires : List (List Nat)) : Prop where
  values : ∃ rs : List Residue, s.leftSides = .ok (rs.map .number) ∧
    List.Forall₂ (fun row value => s.rowValue row = some value) (selectors.zip wires)
      (rs.map (fun r => (r.value : Int)) ++
        List.replicate (selectors.length - s.gates.length) 0)
  satisfied_iff :
    (∀ row ∈ selectors.zip wires, s.rowValue row = some 0) ↔ s.isSatisfied = .ok true

/-- The row of a gate has the value of the gate. -/
theorem WellFormed.rowValue_gate {g : Gate} (hs : WellFormed F s)
    (hfield : ∀ x ∈ s.elements, x.field = F) (hnumber : ∀ x ∈ s.elements, x.IsNumber)
    (hg : g ∈ s.gates) : ∃ r : Residue, s.evaluate g = .ok (.number r) ∧
      s.rowValue (g.selectors.toList, g.wires) = some (r.value : Int) := by
  obtain ⟨a, b, o, ha, hb, ho, hvalue⟩ := hs.evaluate_eq hfield hnumber hg
  refine ⟨_, hvalue, ?_⟩
  simp only [Selectors.toList, Gate.wires, rowValue, ha, hb, ho, hs.field, F.reduce_value]
  rfl

/-- A row of zeros has the value zero, whatever its wires lead to. -/
theorem WellFormed.rowValue_zero (hs : WellFormed F s) :
    s.rowValue ((Selectors.zero s.field).toList, [0, 0, 0]) = some 0 := by
  have hzero : (Element.number s.field.zero).toInt = 0 := by rfl
  simp [Selectors.zero, Selectors.toList, rowValue, hs.zero, hzero, Weights.eval]

theorem zip_padRows {α β γ : Type} {f : γ → List α} {g : γ → List β} {row : List α}
    {row' : List β} (gates : List γ) (n : Nat) :
    (padRows row n (gates.map f)).zip (padRows row' n (gates.map g)) =
      gates.map (fun x => (f x, g x)) ++ List.replicate (n - gates.length) (row, row') := by
  have hlength : (gates.map f).length = (gates.map g).length := by simp
  rw [padRows, padRows, List.zip_append hlength, List.zip_map', List.length_map, List.length_map,
    List.zip_replicate, Nat.min_self]

theorem length_padRows {α : Type} {row : List α} {table : List (List α)} {n : Nat}
    (h : table.length ≤ n) : (padRows row n table).length = n := by
  rw [padRows, List.length_append, List.length_replicate]
  omega

/-- **The padded tables of a system over residues describe it.** -/
theorem WellFormed.describes_padded (hs : WellFormed F s)
    (hfield : ∀ x ∈ s.elements, x.field = F) (hnumber : ∀ x ∈ s.elements, x.IsNumber) {n : Nat}
    (hn : s.gates.length ≤ n) :
    s.Describes (padRows (Selectors.zero s.field).toList n (s.gates.map (·.selectors.toList)))
      (padRows [0, 0, 0] n (s.gates.map (·.wires))) := by
  have hrow := fun g hg => hs.rowValue_gate (g := g) hfield hnumber hg
  constructor
  · obtain ⟨rs, hrs⟩ := exists_forall₂ hrow
    refine ⟨rs, ?_, ?_⟩
    · rw [leftSides, mapM_eq_ok, List.forall₂_map_right_iff]
      exact hrs.imp fun _ _ h => h.1
    · rw [zip_padRows, length_padRows (by simpa using hn)]
      refine List.rel_append ?_ ?_
      · rw [List.forall₂_map_left_iff, List.forall₂_map_right_iff]
        exact hrs.imp fun _ _ h => h.2
      · refine List.forall₂_iff_get.mpr ⟨by simp, fun i _ _ => ?_⟩
        simpa using hs.rowValue_zero
  · rw [zip_padRows, isSatisfied_iff]
    -- the rows of zeros say nothing, and the row of a gate is zero if the gate is
    have hzero : ∀ g ∈ s.gates,
        s.rowValue (g.selectors.toList, g.wires) = some 0 ↔ s.Holds g := by
      intro g hg
      obtain ⟨r, hr, hvalue⟩ := hrow g hg
      rw [hvalue, Holds, hr]
      simp [Element.isZero, Residue.isZero]
    constructor
    · intro h g hg
      exact (hzero g hg).mp
        (h _ (List.mem_append_left _ (List.mem_map_of_mem hg)))
    · intro h row hmem
      rcases List.mem_append.mp hmem with hmem | hmem
      · obtain ⟨g, hg, rfl⟩ := List.mem_map.mp hmem
        exact (hzero g hg).mpr (h g hg)
      · rw [List.eq_of_mem_replicate hmem]
        exact hs.rowValue_zero

/-! ## Arrays -/

theorem rowCount_eq (s : ConstraintSystem) (n : Int) :
    s.rowCount (some n) =
      if n < s.gates.length then .error (.tooFewRows s.gates.length n) else .ok n.toNat := rfl

/-- An array for one of the tables of a system. -/
def array {α : Type} (s : ConstraintSystem) (a : Allocator) (columns : Nat) (kind : String)
    (row : List α) (table : List (List α)) (n : Int) : Except Fault (List (List α)) := do
  a.reserve ⟨← s.rowCount (some n), columns, kind⟩
  (s.rowCount (some n)).map fun rows => padRows row rows table

theorem selectorArray_eq (s : ConstraintSystem) (a : Allocator) (n : Int) :
    s.selectorArray a (some n) = s.array a 6 "object" (Selectors.zero s.field).toList
      (s.gates.map (·.selectors.toList)) n := rfl

theorem wireArray_eq (s : ConstraintSystem) (a : Allocator) (n : Int) :
    s.wireArray a (some n) = s.array a 3 "int64" [0, 0, 0] (s.gates.map (·.wires)) n := rfl

section Arrays

variable {α : Type} {a : Allocator} {columns : Nat} {kind : String} {row : List α}
  {table rows : List (List α)} {n : Int}

theorem array_eq_ok_iff : s.array a columns kind row table n = .ok rows ↔
    s.gates.length ≤ n ∧ a.Grants ⟨n.toNat, columns, kind⟩ ∧
      padRows row n.toNat table = rows := by
  rw [array, rowCount_eq, ← Allocator.reserve_eq_ok_iff]
  split_ifs with hn
  · simpa using fun h => absurd h (by omega)
  · rw [ok_bind, ok_map, bind_eq_ok, Unique.exists_iff, Except.ok.injEq]
    exact (and_iff_right (Int.not_lt.mp hn)).symm

/-- **An array fails exactly if there are too few rows or no room is granted.** -/
theorem array_fails_iff : (∃ fault, s.array a columns kind row table n = .error fault) ↔
    n < s.gates.length ∨ ¬a.Grants ⟨n.toNat, columns, kind⟩ := by
  rw [exists_error_iff]
  simp only [array_eq_ok_iff, ← and_assoc, exists_and_left, exists_eq', and_true]
  rw [not_and_or, Int.not_le]

theorem array_of_tooManyRows (ha : a.CountsRows) (hn : s.gates.length ≤ n)
    (hrows : Limits.index < n.toNat) :
    s.array a columns kind row table n = .error (.table .tooManyRows) := by
  rw [array, rowCount_eq, if_neg (Int.not_lt.mpr hn), ok_bind, ha.reserve hrows, error_bind]

end Arrays

section Tables

variable {a : Allocator} {n : Int} {selectors : List (List Element)} {wires : List (List Nat)}

theorem exists_arrays (hn : s.gates.length ≤ n) (hselectors : a.Grants ⟨n.toNat, 6, "object"⟩)
    (hwires : a.Grants ⟨n.toNat, 3, "int64"⟩) : ∃ selectors wires,
      s.selectorArray a (some n) = .ok selectors ∧ s.wireArray a (some n) = .ok wires := by
  simp only [selectorArray_eq, wireArray_eq, array_eq_ok_iff]
  exact ⟨_, _, ⟨hn, hselectors, rfl⟩, ⟨hn, hwires, rfl⟩⟩

theorem length_of_arrays (hselectors : s.selectorArray a (some n) = .ok selectors)
    (hwires : s.wireArray a (some n) = .ok wires) :
    (selectors.length : Int) = n ∧ (wires.length : Int) = n := by
  rw [selectorArray_eq, array_eq_ok_iff] at hselectors
  rw [wireArray_eq, array_eq_ok_iff] at hwires
  obtain ⟨hn, -, rfl⟩ := hselectors
  obtain ⟨-, -, rfl⟩ := hwires
  rw [length_padRows (by rw [List.length_map]; omega),
    length_padRows (by rw [List.length_map]; omega)]
  omega

/-- The arrays that are made for a system over residues describe it. -/
theorem WellFormed.describes_of_arrays (hs : WellFormed F s)
    (hfield : ∀ x ∈ s.elements, x.field = F) (hnumber : ∀ x ∈ s.elements, x.IsNumber)
    (hselectors : s.selectorArray a (some n) = .ok selectors)
    (hwires : s.wireArray a (some n) = .ok wires) : s.Describes selectors wires := by
  rw [selectorArray_eq, array_eq_ok_iff] at hselectors
  rw [wireArray_eq, array_eq_ok_iff] at hwires
  obtain ⟨hn, -, rfl⟩ := hselectors
  obtain ⟨-, -, rfl⟩ := hwires
  exact hs.describes_padded hfield hnumber (by omega)

end Tables

end ConstraintSystem

/-! ## Lowered circuits -/

namespace Circuit

variable {F : PrimeField} {c : Circuit} {l : LoweredCircuit}

theorem reachable_lower (h : c.lower = .ok l) : ConstraintSystem.Reachable c.field l.system := by
  have hreachable : ConstraintSystem.Reachable c.field (c.addTo (.empty c.field)).1 :=
    .addTo .empty c
  rw [lower] at h
  cases hadd : c.addTo (.empty c.field) with
  | mk s outcome =>
    rw [hadd] at h hreachable
    cases outcome with
    | error fault => cases h
    | ok _ =>
      dsimp only at h
      split_ifs at h
      cases h
      exact hreachable

/-- **The elements of a lowered circuit are residues of its field.** -/
theorem Accepted.isResidueOf_elements (h : c.Accepted)
    (htext : ∀ e ∈ c.expressions, e.HoldsNoText) (hnumbers : c.table.HoldsNumbers)
    (hl : c.lower = .ok l) : ∀ x ∈ l.system.elements, x.IsResidueOf c.field := by
  refine List.forall_mem_append.mpr ⟨?_, h.isResidueOf_lower htext hnumbers hl⟩
  obtain ⟨gates, -, rfl⟩ := (lower_eq_ok_iff h.inField).mp hl
  refine List.forall_mem_cons.mpr ⟨⟨_, rfl, rfl⟩, fun x hx => ?_⟩
  obtain ⟨w, hw, rfl⟩ := List.mem_map.mp hx
  obtain ⟨v, hv, rfl⟩ := List.mem_map.mp hw
  have hmem := List.mem_of_mem_filter hv
  exact h.inField v hmem ▸ (hnumbers v hmem).isResidueOf

/-- There are at least as many padded gates as gates. -/
theorem Accepted.length_gates_le (h : c.Accepted) (hl : c.lower = .ok l) :
    l.gates.length ≤ l.paddedGates := by
  rw [h.length_gates_lower hl, (h.publicInputs_lower hl).2]
  exact Nat.le_of_lt (Nat.lt_trans (Nat.lt_succ_self _) Nat.lt_two_pow_self)

/-- **No allocator that counts rows grants room for the tables of a long circuit.** -/
theorem Accepted.arrays_of_tooManyRows {a : Allocator} (h : c.Accepted) (hl : c.lower = .ok l)
    (ha : a.CountsRows) (hlong : 62 ≤ c.expressions.length) :
    l.selectorArray a true = .error (.table .tooManyRows) ∧
      l.wireArray a true = .error (.table .tooManyRows) := by
  have hle : (l.system.gates.length : Int) ≤ l.paddedGates := by
    exact_mod_cast h.length_gates_le hl
  have hrows : Limits.index < (l.paddedGates : Int).toNat := by
    rw [Int.toNat_natCast, (h.publicInputs_lower hl).2]
    calc Limits.index < 2 ^ 63 := by decide
      _ ≤ 2 ^ (c.expressions.length + 1) := Nat.pow_le_pow_right (by decide) (by omega)
  exact ⟨ConstraintSystem.array_of_tooManyRows ha hle hrows,
    ConstraintSystem.array_of_tooManyRows ha hle hrows⟩

end Circuit

/-- **The padded tables describe the same system.** Whatever makes room for tables, the tables of a
system are made exactly if they have at least a row for each gate and room is granted. They have the
wanted number of rows, and the values of the gates followed by zeros, so they are satisfied exactly
if the system is. A circuit has at least as many padded gates as gates, so its tables fail only for
want of room, but they do so from 62 equations on if rows are counted by an index. -/
theorem ConstraintSystem.tables_describe_gates (F : PrimeField) (a : Allocator) :
    (∀ (calls : List Call) (n : Int),
      let s := (empty F).afterCalls calls
      ((∃ fault, s.selectorArray a (some n) = .error fault) ↔
        n < s.gates.length ∨ ¬a.Grants ⟨n.toNat, 6, "object"⟩) ∧
      ((∃ fault, s.wireArray a (some n) = .error fault) ↔
        n < s.gates.length ∨ ¬a.Grants ⟨n.toNat, 3, "int64"⟩) ∧
      ∀ selectors wires, s.selectorArray a (some n) = .ok selectors →
        s.wireArray a (some n) = .ok wires →
          (selectors.length : Int) = n ∧ (wires.length : Int) = n ∧
          (TextFree calls → s.Describes selectors wires)) ∧
    ∀ es c calls, Circuit.ofExpressions F es = .ok c → (∀ e ∈ es, e.IsIntegral) →
      Circuit.TextFree calls → ∃ l, (c.afterCalls calls).lower = .ok l ∧
        l.gates.length ≤ l.paddedGates ∧
        ((∃ fault, l.selectorArray a true = .error fault) ↔
          ¬a.Grants ⟨l.paddedGates, 6, "object"⟩) ∧
        ((∃ fault, l.wireArray a true = .error fault) ↔
          ¬a.Grants ⟨l.paddedGates, 3, "int64"⟩) ∧
        (a.CountsRows → 62 ≤ es.length →
          l.selectorArray a true = .error (.table .tooManyRows) ∧
          l.wireArray a true = .error (.table .tooManyRows)) ∧
        ∀ selectors wires, l.selectorArray a true = .ok selectors →
          l.wireArray a true = .ok wires →
            selectors.length = l.paddedGates ∧ wires.length = l.paddedGates ∧
            l.system.Describes selectors wires := by
  constructor
  · intro calls n s
    have hs : WellFormed F s := (reachable_afterCalls F calls).wellFormed
    refine ⟨array_fails_iff, array_fails_iff, fun selectors wires hselectors hwires => ?_⟩
    obtain ⟨hrows, hrows'⟩ := length_of_arrays hselectors hwires
    exact ⟨hrows, hrows', fun htext => hs.describes_of_arrays (fun x => field_of_mem_elements)
      (fun x => isNumber_of_mem_elements htext) hselectors hwires⟩
  · intro es c calls hc hint htext
    obtain ⟨l, hl⟩ := Circuit.exists_lower_afterCalls hc hint htext
    have haccepted := (Circuit.accepted_ofExpressions hc).afterCalls calls
    have hnumbers := Circuit.holdsNumbers_afterCalls (Circuit.holdsNumbers_ofExpressions hc) htext
    have hs := (Circuit.reachable_lower hl).wellFormed
    have hle := haccepted.length_gates_le hl
    have hexpressions : (c.afterCalls calls).expressions = es :=
      (Circuit.expressions_afterCalls c calls).trans (Circuit.expressions_ofExpressions hc)
    have hresidues := haccepted.isResidueOf_elements
      (hexpressions ▸ fun e he => (hint e he).holdsNoText) hnumbers hl
    have hnot : ¬(l.paddedGates : Int) < l.system.gates.length := by
      rw [Int.not_lt]
      exact_mod_cast hle
    refine ⟨l, hl, hle, array_fails_iff.trans (or_iff_right hnot),
      array_fails_iff.trans (or_iff_right hnot), fun ha hlong => ?_,
      fun selectors wires hselectors hwires => ?_⟩
    · exact haccepted.arrays_of_tooManyRows hl ha (hexpressions ▸ hlong)
    obtain ⟨hrows, hrows'⟩ := length_of_arrays hselectors hwires
    refine ⟨by exact_mod_cast hrows, by exact_mod_cast hrows',
      hs.describes_of_arrays (fun x hx => ?_) (fun x hx => ?_) hselectors hwires⟩
    · obtain ⟨r, rfl, hr⟩ := hresidues x hx
      exact hr
    · obtain ⟨r, rfl, -⟩ := hresidues x hx
      trivial

/-- In 384 bytes the tables of a system with one gate are padded to four rows, and those of the
program `2a*b - 9c + a = -p; b - c = 0` to eight, but not those of the system to nine. -/
theorem ConstraintSystem.tables_describe_gates_example :
    let s := (empty Circuit.exampleField).afterCalls exampleCalls
    let a := Allocator.ofMemory 384
    (TextFree exampleCalls ∧ ∃ selectors wires, s.selectorArray a (some 4) = .ok selectors ∧
      s.wireArray a (some 4) = .ok wires ∧ selectors.length = 4 ∧ s.Describes selectors wires) ∧
    (∃ fault, s.selectorArray a (some 9) = .error fault) ∧
    ∃ c l selectors wires,
      Circuit.ofExpressions Circuit.exampleField Circuit.exampleProgram = .ok c ∧
      (c.afterCalls Circuit.exampleCalls).lower = .ok l ∧ l.selectorArray a true = .ok selectors ∧
      l.wireArray a true = .ok wires ∧ selectors.length = 8 ∧
      l.system.Describes selectors wires := by
  intro s a
  obtain ⟨hsystem, hcircuit⟩ := tables_describe_gates Circuit.exampleField a
  refine ⟨?_, (hsystem exampleCalls 9).1.mpr (Or.inr (by decide)), ?_⟩
  · have htext : TextFree exampleCalls := by decide
    have hgates : s.gates.length = 1 := by decide +kernel
    have hle : (s.gates.length : Int) ≤ 4 := by omega
    obtain ⟨selectors, wires, hselectors, hwires⟩ :=
      exists_arrays (a := a) hle (by decide) (by decide)
    obtain ⟨-, -, htables⟩ := hsystem exampleCalls 4
    obtain ⟨hrows, -, hdescribes⟩ := htables _ _ hselectors hwires
    exact ⟨htext, _, _, hselectors, hwires, by exact_mod_cast hrows, hdescribes htext⟩
  · have hvalid : Expression.validate Circuit.exampleProgram = .ok () := by rfl
    have hc := Circuit.ofExpressions_eq_ok Circuit.exampleField hvalid
    obtain ⟨l, hl, hle, -, -, -, htables⟩ :=
      hcircuit _ _ Circuit.exampleCalls hc (by decide) (by decide)
    have haccepted := (Circuit.accepted_ofExpressions hc).afterCalls Circuit.exampleCalls
    have hpadded : l.paddedGates = 8 := by
      rw [(haccepted.publicInputs_lower hl).2, Circuit.paddedGates, Circuit.size,
        Circuit.expressions_afterCalls]
      rfl
    have hle : (l.system.gates.length : Int) ≤ l.paddedGates := by exact_mod_cast hle
    obtain ⟨selectors, wires, hselectors, hwires⟩ :=
      exists_arrays (a := a) hle (by rw [hpadded]; decide) (by rw [hpadded]; decide)
    obtain ⟨hrows, -, hdescribes⟩ := htables _ _ hselectors hwires
    exact ⟨_, l, _, _, hc, hl, hselectors, hwires, hrows.trans hpadded, hdescribes⟩

/-- A program of 63 equations `a = 0` has 63 gates, but its tables have too many rows to be made,
however much memory there is. -/
theorem Circuit.tables_without_room :
    ∃ c l, Circuit.parse .default (repeatedText 63) = .ok c ∧ c.lower = .ok l ∧
      l.gates.length = 63 ∧ l.paddedGates = 18446744073709551616 ∧
      (∀ memory, (Allocator.ofMemory memory).CountsRows) ∧
      ∀ a : Allocator, a.CountsRows → l.selectorArray a true = .error (.table .tooManyRows) ∧
        l.wireArray a true = .error (.table .tooManyRows) := by
  obtain ⟨c, hc, hexpressions⟩ := Circuit.parse_repeatedText 63
  obtain ⟨es, hes, hof⟩ := Circuit.parse_ok (Expression.parse_repeatedText 63) hc
  have haccepted := accepted_ofExpressions hof
  have hint : ∀ e ∈ c.expressions, e.IsIntegral := by
    rw [expressions_ofExpressions hof]
    exact Expression.isIntegral_listOfEquations hes
  obtain ⟨l, hl⟩ := haccepted.exists_lower hint (holdsNumbers_ofExpressions hof)
  have hgates : l.gates.length = 63 := by
    rw [haccepted.length_gates_lower hl, hexpressions, List.length_replicate]
  have hpadded : l.paddedGates = 18446744073709551616 := by
    rw [(haccepted.publicInputs_lower hl).2, paddedGates, size, hexpressions,
      List.length_replicate]
    rfl
  refine ⟨c, l, hc, hl, hgates, hpadded, Allocator.countsRows_ofMemory, fun a ha => ?_⟩
  refine haccepted.arrays_of_tooManyRows hl ha ?_
  rw [hexpressions, List.length_replicate]
  decide

end PlonkGates
