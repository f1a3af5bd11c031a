import Mathlib.Data.List.OfFn
import Mathlib.Logic.Equiv.Basic
import PlonkGates.Proofs.Lowering

/-!
# The order of equations

The rules ask what equations there are and not where they stand. So does the table of a program that
keeps them: it is sorted by names, and since all mentions of a name agree on its role, it does not
matter which of them comes first (`derive_congr`). All that a gate is made of stands in the table
and in its own equation. So a program whose equations are reordered has the same witnesses and
public inputs, and its gates are reordered in the same way (`lower_reordered`).
-/

namespace PlonkGates

/-! ## Reordered lists -/

/-- The second list has at each place what the first one has at the place that a permutation
gives. -/
structure Reorders {α : Type} {n : Nat} (σ : Equiv.Perm (Fin n)) (xs ys : List α) : Prop where
  length : xs.length = n
  length' : ys.length = n
  get : ∀ i : Fin n, ys[i.val]? = xs[(σ i).val]?

namespace Reorders

variable {α β : Type} {n : Nat} {σ : Equiv.Perm (Fin n)} {xs xs' : List α} {ys : List β}

theorem symm (h : Reorders σ xs xs') : Reorders σ.symm xs' xs where
  length := h.length'
  length' := h.length
  get := fun i => by
    have hplace := h.get (σ.symm i)
    rw [σ.apply_symm_apply] at hplace
    exact hplace.symm

theorem subset (h : Reorders σ xs xs') : xs' ⊆ xs := by
  intro x hx
  obtain ⟨i, hi⟩ := List.mem_iff_getElem?.mp hx
  have hlt : i < n := h.length' ▸ (List.getElem?_eq_some_iff.mp hi).1
  exact List.mem_of_getElem? ((h.get ⟨i, hlt⟩).symm.trans hi)

theorem mem_iff (h : Reorders σ xs xs') {x : α} : x ∈ xs' ↔ x ∈ xs :=
  ⟨fun hx => h.subset hx, fun hx => h.symm.subset hx⟩

/-- What goes with a list, place by place, goes with the reordered list if it is reordered too. -/
theorem exists_forall₂ {R : α → β → Prop} (h : Reorders σ xs xs') (hR : List.Forall₂ R xs ys) :
    ∃ ys', Reorders σ ys ys' ∧ List.Forall₂ R xs' ys' := by
  have hys : ys.length = n := hR.length_eq ▸ h.length
  refine ⟨List.ofFn fun i : Fin n => ys.get ((σ i).cast hys.symm),
    ⟨hys, List.length_ofFn, fun i => by simp⟩, ?_⟩
  rw [List.forall₂_iff_get]
  refine ⟨h.length'.trans List.length_ofFn.symm, fun i hi hi' => ?_⟩
  have hlt : i < n := h.length' ▸ hi
  have hget := h.get ⟨i, hlt⟩
  have hσ : (σ ⟨i, hlt⟩).val < xs.length := h.length.symm ▸ (σ ⟨i, hlt⟩).isLt
  rw [List.getElem?_eq_getElem hi, List.getElem?_eq_getElem hσ, Option.some_inj] at hget
  rw [List.get_eq_getElem, hget, List.get_ofFn]
  exact hR.get hσ _

end Reorders

/-! ## The rules and the table -/

theorem Expression.RolesAgree.congr {es es' : List Expression} (h : Expression.RolesAgree es)
    (hmem : ∀ e, e ∈ es' ↔ e ∈ es) : Expression.RolesAgree es' :=
  fun d hd p hp e he => h d ((hmem d).mp hd) p hp e ((hmem e).mp he)

/-- The rules ask which equations there are. -/
theorem Expression.validate_congr {es es' : List Expression} (hmem : ∀ e, e ∈ es' ↔ e ∈ es) :
    Expression.validate es' = .ok () ↔ Expression.validate es = .ok () := by
  have hfits : (∀ e ∈ es', e.Fits) ↔ ∀ e ∈ es, e.Fits := forall_congr' fun e => by rw [hmem e]
  have hroles : RolesAgree es' ↔ RolesAgree es :=
    ⟨fun h => h.congr fun e => (hmem e).symm, fun h => h.congr hmem⟩
  rw [validate_eq_ok_iff, validate_eq_ok_iff, hfits, hroles]

/-- **Programs that keep the rules and have the same equations have the same table.** -/
theorem VariableTable.derive_congr {es es' : List Expression} (F : PrimeField)
    (hroles : Expression.RolesAgree es) (hmem : ∀ e, e ∈ es' ↔ e ∈ es) :
    derive F es' = derive F es := by
  have hsame : ∀ v, v ∈ (derive F es').entries ↔ v ∈ (derive F es).entries := by
    intro v
    rw [mem_derive hroles, mem_derive (hroles.congr hmem), List.mem_flatMap, List.mem_flatMap]
    simp only [hmem]
  -- which variables there are decides the table, since it is sorted
  have hperm := (List.perm_ext_iff_of_nodup (sorted_derive F es').nodup
    (sorted_derive F es).nodup).mpr hsame
  have hentries := (sorted_derive F es').eq_of_perm (sorted_derive F es) hperm
  exact congrArg (VariableTable.mk F) hentries

/-! ## Circuits -/

namespace Circuit

variable {n : Nat} {σ : Equiv.Perm (Fin n)} {c c' : Circuit}

/-- The second circuit is the first one with its equations reordered. -/
structure Reordered (σ : Equiv.Perm (Fin n)) (c c' : Circuit) : Prop where
  field : c'.field = c.field
  table : c'.table = c.table
  expressions : Reorders σ c.expressions c'.expressions

/-- What lowering gives differs in the order of the gates alone. -/
structure LoweredAlike (σ : Equiv.Perm (Fin n)) (l l' : LoweredCircuit) : Prop where
  field : l'.system.field = l.system.field
  witnesses : l'.system.witnesses = l.system.witnesses
  publicInputs : l'.publicInputs = l.publicInputs
  paddedGates : l'.paddedGates = l.paddedGates
  gates : Reorders σ l.gates l'.gates

theorem reordered_ofExpressions {F : PrimeField} {es es' : List Expression} (h : Reorders σ es es')
    (hc : ofExpressions F es = .ok c) (hc' : ofExpressions F es' = .ok c') : Reordered σ c c' := by
  have hroles := (accepted_ofExpressions hc).rolesAgree
  obtain ⟨-, rfl⟩ := ofExpressions_ok hc
  obtain ⟨-, rfl⟩ := ofExpressions_ok hc'
  exact ⟨rfl, VariableTable.derive_congr F hroles fun e => h.mem_iff, h⟩

namespace Reordered

theorem symm (h : Reordered σ c c') : Reordered σ.symm c' c :=
  ⟨h.field.symm, h.table.symm, h.expressions.symm⟩

theorem afterCalls (h : Reordered σ c c') (calls : List (List (Value × Value))) :
    Reordered σ (c.afterCalls calls) (c'.afterCalls calls) where
  field := by rw [field_afterCalls, field_afterCalls, h.field]
  table := by rw [table_afterCalls, table_afterCalls, h.table]
  expressions := by
    rw [expressions_afterCalls, expressions_afterCalls]
    exact h.expressions

theorem gateOf (h : Reordered σ c c') (s : ConstraintSystem) (ws : List (String × Int))
    (e : Expression) : c'.gateOf s ws e = c.gateOf s ws e := by
  rw [Circuit.gateOf, Circuit.gateOf, h.field, h.table]

/-- **With the equations, lowering reorders the gates and nothing else.** -/
theorem exists_lower (h : Reordered σ c c')
    (hin : ∀ v ∈ c.table.entries, v.value.field = c.field) {l : LoweredCircuit}
    (hl : c.lower = .ok l) : ∃ l', c'.lower = .ok l' ∧ LoweredAlike σ l l' := by
  obtain ⟨gates, hgates, rfl⟩ := (lower_eq_ok_iff hin).mp hl
  obtain ⟨gates', hreorders, hgates'⟩ := h.expressions.exists_forall₂ hgates
  refine ⟨⟨{ c.withWitnesses (.empty c.field) with gates := gates' }, c.publicInputs,
    c.paddedGates⟩, ?_, ⟨rfl, rfl, rfl, rfl, hreorders⟩⟩
  refine (lower_eq_ok_iff (by rwa [h.table, h.field])).mpr ⟨gates', ?_, ?_⟩
  · simp only [withWitnesses, indices, h.field, h.table]
    exact hgates'.imp fun e g hg => (h.gateOf _ _ e).trans hg
  · simp only [withWitnesses, Circuit.publicInputs, Circuit.paddedGates, size, h.field, h.table,
      h.expressions.length, h.expressions.length']

theorem exists_lower_iff (h : Reordered σ c c') (hc : c.Accepted) (hc' : c'.Accepted) :
    (∃ l', c'.lower = .ok l') ↔ ∃ l, c.lower = .ok l := by
  constructor
  · rintro ⟨l', hl'⟩
    obtain ⟨l, hl, -⟩ := h.symm.exists_lower hc'.inField hl'
    exact ⟨l, hl⟩
  · rintro ⟨l, hl⟩
    obtain ⟨l', hl', -⟩ := h.exists_lower hc.inField hl
    exact ⟨l', hl'⟩

theorem loweredAlike (h : Reordered σ c c')
    (hin : ∀ v ∈ c.table.entries, v.value.field = c.field) {l l' : LoweredCircuit}
    (hl : c.lower = .ok l) (hl' : c'.lower = .ok l') : LoweredAlike σ l l' := by
  obtain ⟨m, hm, halike⟩ := h.exists_lower hin hl
  cases hl'.symm.trans hm
  exact halike

end Reordered

/-- **Reordering equations reorders the gates and changes nothing else.** A reordered program is
accepted exactly if the program is, and it has the same table, in which all values are zero. After
the same calls one is lowered exactly if the other is (which they are, unless a text was supplied
for a residue), with the same witnesses at the same indices, the same public inputs and the same
capacity. The gates are reordered as the equations were. -/
theorem lower_reordered {es es' : List Expression} (F : PrimeField) (h : Reorders σ es es')
    (hint : ∀ e ∈ es, e.IsIntegral) :
    ((∃ c', ofExpressions F es' = .ok c') ↔ ∃ c, ofExpressions F es = .ok c) ∧
      ∀ c c', ofExpressions F es = .ok c → ofExpressions F es' = .ok c' →
        c'.table = c.table ∧ (∀ v ∈ c.table.entries, v.value = .number F.zero) ∧
        ∀ calls, (c'.afterCalls calls).table = (c.afterCalls calls).table ∧
          (TextFree calls → ∃ l, (c.afterCalls calls).lower = .ok l) ∧
          ((∃ l', (c'.afterCalls calls).lower = .ok l') ↔
            ∃ l, (c.afterCalls calls).lower = .ok l) ∧
          ∀ l l', (c.afterCalls calls).lower = .ok l → (c'.afterCalls calls).lower = .ok l' →
            LoweredAlike σ l l' := by
  refine ⟨?_, fun c c' hc hc' => ?_⟩
  · rw [exists_ofExpressions_iff, exists_ofExpressions_iff,
      Expression.validate_congr fun e => h.mem_iff]
  have hreordered := reordered_ofExpressions h hc hc'
  have hzero : ∀ v ∈ c.table.entries, v.value = .number F.zero := by
    obtain ⟨-, rfl⟩ := ofExpressions_ok hc
    exact fun v hv => VariableTable.value_mem_derive hv
  refine ⟨hreordered.table, hzero, fun calls => ?_⟩
  have haccepted := (accepted_ofExpressions hc).afterCalls calls
  have haccepted' := (accepted_ofExpressions hc').afterCalls calls
  have hafter := hreordered.afterCalls calls
  exact ⟨hafter.table, exists_lower_afterCalls hc hint,
    hafter.exists_lower_iff haccepted haccepted',
    fun l l' => hafter.loweredAlike haccepted.inField⟩

/-- The two equations of the example trade places, and so do its gates. -/
theorem lower_reordered_exampleProgram :
    Reorders (Equiv.swap (0 : Fin 2) 1) exampleProgram exampleProgram.reverse ∧
      ∃ c c' l l', ofExpressions exampleField exampleProgram = .ok c ∧
        ofExpressions exampleField exampleProgram.reverse = .ok c' ∧ c'.table = c.table ∧
        (c.afterCalls exampleCalls).lower = .ok l ∧ (c'.afterCalls exampleCalls).lower = .ok l' ∧
        LoweredAlike (Equiv.swap (0 : Fin 2) 1) l l' := by
  have hreorders : Reorders (Equiv.swap (0 : Fin 2) 1) exampleProgram exampleProgram.reverse :=
    ⟨rfl, rfl, Fin.forall_fin_two.mpr ⟨rfl, rfl⟩⟩
  obtain ⟨-, h⟩ := lower_reordered exampleField hreorders (by decide)
  have hc : ofExpressions exampleField exampleProgram = .ok _ := ofExpressions_eq_ok _ rfl
  have hc' : ofExpressions exampleField exampleProgram.reverse = .ok _ := ofExpressions_eq_ok _ rfl
  obtain ⟨htable, -, hcalls⟩ := h _ _ hc hc'
  obtain ⟨-, hreturns, hiff, halike⟩ := hcalls exampleCalls
  obtain ⟨l, hl⟩ := hreturns (by decide)
  obtain ⟨l', hl'⟩ := hiff.mpr ⟨l, hl⟩
  exact ⟨hreorders, _, _, l, l', hc, hc', htable, hl, hl', halike l l' hl hl'⟩

end Circuit

end PlonkGates
