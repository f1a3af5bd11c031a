import Mathlib.Data.Nat.Digits.Defs
import Mathlib.Tactic.Ring
import PlonkGates.Expression.Basic
import PlonkGates.Proofs.Outcome

/-!
# Numbers that can be written

A number of more than `Text.digitLimit` digits has no numeral, so a step that writes numbers returns
exactly if they are short (`Writes`). The numbers in the text of an expression are those among its
coefficients (`Expression.writes_toText`).
-/

namespace PlonkGates

open Text (IsShort)

/-! ## Short numbers -/

theorem Text.isShort_of_natAbs_le {z w : Int} (h : z.natAbs ≤ w.natAbs) (hw : IsShort w) :
    IsShort z :=
  Nat.lt_of_le_of_lt h hw

theorem Text.isShort_one : IsShort 1 := by
  unfold IsShort
  decide +kernel

theorem Text.numeral?_of_isShort {z : Int} (h : IsShort z) : numeral? z = some (numeral z) :=
  if_pos h

theorem Text.ofDigits_foldl_lt {ds : List Nat} (h : ∀ d ∈ ds, d < 10) (n : Nat) :
    ds.foldl (fun n d => 10 * n + d) n < (n + 1) * Nat.pow 10 ds.length := by
  induction ds generalizing n with
  | nil => simp
  | cons d ds ih =>
    obtain ⟨hd, hds⟩ := List.forall_mem_cons.mp h
    calc (d :: ds).foldl (fun n d => 10 * n + d) n
        < (10 * n + d + 1) * Nat.pow 10 ds.length := ih hds (10 * n + d)
      _ ≤ ((n + 1) * 10) * Nat.pow 10 ds.length := Nat.mul_le_mul_right _ (by omega)
      _ = (n + 1) * Nat.pow 10 (d :: ds).length := by
        rw [List.length_cons, Nat.pow_eq, Nat.pow_eq, pow_succ]
        ring

theorem Text.ofAsciiDigits_lt {cs : List Char} (h : ∀ c ∈ cs, isAsciiDigit c = true) :
    ofAsciiDigits cs < Nat.pow 10 cs.length := by
  have hdigits : ∀ d ∈ cs.map fun c => c.toNat - 0x30, d < 10 := by
    refine List.forall_mem_map.mpr fun c hc => ?_
    have hdigit := h c hc
    simp only [isAsciiDigit, Bool.and_eq_true, decide_eq_true_eq] at hdigit
    omega
  have hlt := ofDigits_foldl_lt hdigits 0
  rwa [List.length_map, Nat.zero_add, Nat.one_mul] at hlt

/-- A run of digits that is read has a numeral. -/
theorem Text.isShort_ofAsciiDigits {cs : List Char} (h : ∀ c ∈ cs, isAsciiDigit c = true)
    (hlength : cs.length ≤ digitLimit) : IsShort (ofAsciiDigits cs) := by
  have hpow : Nat.pow 10 cs.length ≤ numeralBound := by
    unfold numeralBound
    generalize digitLimit = limit at hlength ⊢
    exact Nat.pow_le_pow_right (by decide) hlength
  exact Nat.lt_of_lt_of_le (ofAsciiDigits_lt h) hpow

/-- The numeral of a short number has few enough digits to be read. -/
theorem Text.length_repr_le {n : Nat} (h : IsShort n) : n.repr.toList.length ≤ digitLimit := by
  have hpow : n < Nat.pow 10 digitLimit := by
    have hbound : n < numeralBound := h
    unfold numeralBound at hbound
    exact hbound
  have hpos : 0 < digitLimit := by decide
  generalize digitLimit = limit at hpow hpos ⊢
  rw [String.length_toList]
  exact Nat.repr_length n limit hpos hpow

/-! ## Steps that write numbers -/

section Steps

variable {α β γ : Type} {p q : Prop} {x : Except Fault α}

/-- A step that writes numbers: it returns if `p` holds, which says that they are short, and turns
them down if not. -/
def Writes (p : Prop) (x : Except Fault α) : Prop :=
  (p ∧ ∃ a, x = .ok a) ∨ (¬p ∧ x = .error .tooLongToWrite)

theorem writes_ok (a : α) : Writes True (.ok a : Except Fault α) := Or.inl ⟨trivial, a, rfl⟩

theorem Writes.congr (hx : Writes p x) (h : p ↔ q) : Writes q x := by
  rwa [Writes, ← h]

/-- One step after the other writes the numbers of both. -/
theorem Writes.bind {f : α → Except Fault β} (hx : Writes p x) (hf : ∀ a, Writes q (f a)) :
    Writes (p ∧ q) (x >>= f) := by
  obtain ⟨hp, a, rfl⟩ | ⟨hp, rfl⟩ := hx
  · obtain ⟨hq, b, hb⟩ | ⟨hq, hfault⟩ := hf a
    · exact Or.inl ⟨⟨hp, hq⟩, b, hb⟩
    · exact Or.inr ⟨fun h => hq h.2, hfault⟩
  · exact Or.inr ⟨fun h => hp h.1, rfl⟩

theorem Writes.map (hx : Writes p x) (f : α → β) : Writes p (x.map f) := by
  obtain ⟨hp, a, rfl⟩ | ⟨hp, rfl⟩ := hx
  · exact Or.inl ⟨hp, f a, rfl⟩
  · exact Or.inr ⟨hp, rfl⟩

/-- Two steps and what is made of their results. -/
theorem Writes.pair {y : Except Fault β} (hx : Writes p x) (hy : Writes q y) (f : α → β → γ) :
    Writes (p ∧ q) (do let a ← x; let b ← y; .ok (f a b)) :=
  hx.bind fun a => (hy.bind fun b => writes_ok (f a b)).congr (by rw [and_true])

/-- A list of steps writes the numbers of all of them. -/
theorem Writes.mapM {f : β → Except Fault α} {P : β → Prop} {bs : List β}
    (h : ∀ b ∈ bs, Writes (P b) (f b)) : Writes (∀ b ∈ bs, P b) (bs.mapM f) := by
  induction bs with
  | nil => exact (writes_ok []).congr (by simp)
  | cons b bs ih =>
    obtain ⟨hb, hbs⟩ := List.forall_mem_cons.mp h
    rw [List.mapM_cons]
    exact (hb.pair (ih hbs) List.cons).congr List.forall_mem_cons.symm

theorem Writes.exists_ok_iff (hx : Writes p x) : (∃ a, x = .ok a) ↔ p := by
  obtain ⟨hp, ha⟩ | ⟨hp, rfl⟩ := hx
  · exact iff_of_true ha hp
  · exact iff_of_false (by simp) hp

theorem Writes.eq_error (hx : Writes p x) (hp : ¬p) : x = .error .tooLongToWrite :=
  (hx.resolve_left fun h => hp h.1).2

end Steps

theorem Text.writeInteger_of_isShort {z : Int} (h : IsShort z) :
    writeInteger z = .ok (numeral z) := by
  rw [writeInteger, numeral?_of_isShort h]

theorem Text.writes_writeInteger (z : Int) : Writes (IsShort z) (writeInteger z) := by
  by_cases h : IsShort z
  · exact Or.inl ⟨h, _, writeInteger_of_isShort h⟩
  · refine Or.inr ⟨h, ?_⟩
    rw [writeInteger, numeral?, if_neg h]

/-! ## Values -/

namespace Value

theorem isWritable_int {z : Int} : (int z).isWritable = true ↔ IsShort z := by
  rw [isWritable, isDisplayable, decide_eq_true_iff]
  exact fun x h => by cases h

/-- The number one can be written, in whatever form it is supplied. -/
theorem isWritable_of_isOne {v : Value} (h : v.isOne = true) : v.isWritable = true := by
  cases v with
  | int n =>
    rw [eq_of_beq h]
    exact isWritable_int.mpr Text.isShort_one
  | element x =>
    cases x with
    | number x =>
      have hx : x = x.field.reduce 1 := eq_of_beq h
      rw [hx]
      refine decide_eq_true (Text.isShort_of_natAbs_le ?_ Text.isShort_one)
      have hle : ((1 : Int) % x.field.order).toNat ≤ 1 := by
        have hpos := x.field.two_le
        rw [Int.emod_eq_of_lt (by decide) (by omega)]
        decide
      exact hle
    | text F content => cases h
  | list items => cases h
  | object entries => cases h
  | _ => rfl

theorem writes_write (v : Value) : Writes (v.isWritable = true) v.write := by
  rw [write]
  split_ifs with h
  · exact Or.inl ⟨h, _, rfl⟩
  · exact Or.inr ⟨h, rfl⟩

theorem write_of_isWritable {v : Value} (h : v.isWritable = true) : v.write = .ok v.plain :=
  if_pos h

end Value

/-! ## Expressions -/

theorem writes_coefficientText (v : Value) : Writes (v.isWritable = true) (coefficientText v) := by
  rw [coefficientText]
  split_ifs with h
  · exact Or.inl ⟨Value.isWritable_of_isOne h, "", rfl⟩
  · exact v.writes_write

namespace Expression

variable (e : Expression)

/-- **The text of an expression is written if its coefficients can be.** -/
theorem writes_toText : Writes (∀ v ∈ e.coefficients, v.isWritable = true) e.toText := by
  have hquadratic : Writes (∀ t ∈ e.quadratic.toList, t.coefficient.isWritable = true)
      (e.quadratic.toList.mapM fun t => t.body.map (t.negative, ·)) :=
    .mapM fun t _ => ((writes_coefficientText t.coefficient).map _).map _
  have hlinear : Writes (∀ t ∈ e.linear, t.coefficient.isWritable = true)
      (e.linear.mapM fun t => t.body.map (t.negative, ·)) :=
    .mapM fun t _ => ((writes_coefficientText t.coefficient).map _).map _
  have hbodies : Writes _ e.signedBodies := hquadratic.pair hlinear _
  refine (hbodies.bind fun _ => writes_ok _).congr ?_
  rw [and_true, coefficients, List.forall_mem_append, List.forall_mem_map, Option.toList_map,
    List.forall_mem_map]

end Expression

end PlonkGates
