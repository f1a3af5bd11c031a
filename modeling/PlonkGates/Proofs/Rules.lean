import Mathlib.Data.Finset.Card
import Mathlib.Data.String.Basic
import PlonkGates.Expression.Rules

/-!
# What the rules on programs say

The rules are decided by loops that look for the first violation. Here each of them is a statement
about names: `Expression.Fits` collects the four rules on one equation, `Expression.RolesAgree` is
the rule across equations. A program is accepted exactly if it keeps all of them
(`validate_eq_ok_iff`).
-/

namespace PlonkGates

/-! ## Sorted names -/

namespace Text

theorem pairwise_insertName {x : String} {ys : List String} (h : ys.Pairwise (· < ·)) :
    (insertName x ys).Pairwise (· < ·) := by
  induction ys with
  | nil => simp [insertName]
  | cons y ys ih =>
    obtain ⟨hy, hys⟩ := List.pairwise_cons.mp h
    rw [insertName]
    split
    · next hxy =>
      refine List.pairwise_cons.mpr ⟨fun z hz => ?_, h⟩
      rcases List.mem_cons.mp hz with rfl | hz
      · exact hxy
      · exact lt_trans hxy (hy z hz)
    · next hxy =>
      split
      · exact h
      · next hne =>
        refine List.pairwise_cons.mpr ⟨fun z hz => ?_, ih hys⟩
        rcases mem_insertName.mp hz with rfl | hz
        · exact lt_of_le_of_ne (not_lt.mp hxy) (Ne.symm hne)
        · exact hy z hz

/-- Sorted names are strictly increasing. -/
theorem pairwise_sortNames (xs : List String) : (sortNames xs).Pairwise (· < ·) := by
  induction xs with
  | nil => exact List.Pairwise.nil
  | cons x xs ih => exact pairwise_insertName ih

/-- As many names are sorted as there are different ones. -/
theorem length_sortNames (xs : List String) : (sortNames xs).length = xs.toFinset.card := by
  have hnodup : (sortNames xs).Nodup := (pairwise_sortNames xs).imp ne_of_lt
  have hset : (sortNames xs).toFinset = xs.toFinset := by
    ext x
    simp
  rw [← List.toFinset_card_of_nodup hnodup, hset]

end Text

namespace Expression

/-! ## Rules for one equation -/

/-- The equation keeps the rules that concern it alone. -/
structure Fits (e : Expression) : Prop where
  /-- A quadratic term multiplies two different variables. -/
  operands : ∀ t, e.quadratic = some t → t.left ≠ t.right
  names : e.names.toFinset.card ≤ maxNames
  wires : e.wireNames.toFinset.card ≤ wireCount
  /-- No variable occurs in two linear terms. -/
  linear : (e.linear.map (·.name)).Nodup
  /-- The public input is on no wire. -/
  rhs : ∀ p, e.rhs = some p → p.name ∉ e.wireNames

variable {e : Expression} {es : List Expression}

theorem brokenOperands_eq_none_iff :
    e.brokenOperands = none ↔ ∀ t, e.quadratic = some t → t.left ≠ t.right := by
  unfold brokenOperands
  cases e.quadratic with
  | none => simp
  | some t => simp

theorem brokenCount_eq_none_iff :
    e.brokenCount = none ↔
      e.names.toFinset.card ≤ maxNames ∧ e.wireNames.toFinset.card ≤ wireCount := by
  simp only [brokenCount, Text.length_sortNames]
  split
  · next h => simp only [reduceCtorEq, false_iff]; omega
  · split
    · next h => simp only [reduceCtorEq, false_iff]; omega
    · simp only [true_iff]; omega

theorem firstRepeated_eq_none_iff {seen xs : List String} :
    firstRepeated seen xs = none ↔ xs.Nodup ∧ ∀ x ∈ xs, x ∉ seen := by
  induction xs generalizing seen with
  | nil => simp [firstRepeated]
  | cons x xs ih =>
    rw [firstRepeated]
    split
    · next hx => simp [hx]
    · next hx =>
      rw [ih, List.nodup_cons]
      constructor
      · rintro ⟨hnodup, hout⟩
        refine ⟨⟨fun hmem => hout x hmem List.mem_cons_self, hnodup⟩, ?_⟩
        exact List.forall_mem_cons.mpr ⟨hx, fun y hy hs => hout y hy (List.mem_cons_of_mem x hs)⟩
      · rintro ⟨⟨hxs, hnodup⟩, hout⟩
        refine ⟨hnodup, fun y hy hs => ?_⟩
        rcases List.mem_cons.mp hs with rfl | hs
        · exact hxs hy
        · exact hout y (List.mem_cons_of_mem x hy) hs

theorem brokenLinear_eq_none_iff : e.brokenLinear = none ↔ (e.linear.map (·.name)).Nodup := by
  rw [brokenLinear, Option.map_eq_none_iff, firstRepeated_eq_none_iff]
  simp

theorem brokenPublic_eq_none_iff :
    e.brokenPublic = none ↔ ∀ p, e.rhs = some p → p.name ∉ e.wireNames := by
  unfold brokenPublic
  cases e.rhs with
  | none => simp
  | some p => simp

/-- No violation is found exactly if no expression breaks the rule. -/
theorem firstBroken_eq_none_iff {rule : Expression → Option Rule} {index : Nat} :
    firstBroken rule index es = none ↔ ∀ e ∈ es, rule e = none := by
  induction es generalizing index with
  | nil => simp [firstBroken]
  | cons e es ih =>
    rw [firstBroken, List.forall_mem_cons]
    split
    · next broken h => simp [h]
    · next h => rw [ih]; simp [h]

/-! ## The rule across equations -/

/-- No name is a public input in one equation and on a wire in another, or in the same one. -/
def RolesAgree (es : List Expression) : Prop :=
  ∀ d ∈ es, ∀ p, d.rhs = some p → ∀ e ∈ es, p.name ∉ e.wireNames

theorem exists_publicAt_iff {name : String} :
    (∃ i, publicAt es name = some i) ↔ ∃ e ∈ es, ∃ p, e.rhs = some p ∧ p.name = name := by
  rw [← Option.isSome_iff_exists, publicAt, List.findIdx?_isSome, List.any_eq_true]
  simp [Option.any_eq_true]

theorem exists_wireAt_iff {name : String} :
    (∃ i, wireAt es name = some i) ↔ ∃ e ∈ es, name ∈ e.wireNames := by
  rw [← Option.isSome_iff_exists, wireAt, List.findIdx?_isSome, List.any_eq_true]
  simp

/-- A conflict is a name that is first seen in each of the two roles somewhere. -/
theorem mem_conflicts {c : Conflict} : c ∈ conflicts es ↔
    ∃ p w, publicAt es c.name = some p ∧ wireAt es c.name = some w ∧
      c = ⟨c.name, max p w, min p w⟩ := by
  simp only [conflicts, List.mem_filterMap, Text.mem_sortNames, List.mem_filter]
  constructor
  · rintro ⟨name, -, h⟩
    cases hp : publicAt es name with
    | none => simp [hp] at h
    | some p =>
      cases hw : wireAt es name with
      | none => simp [hp, hw] at h
      | some w =>
        rw [hp, hw] at h
        cases h
        exact ⟨p, w, hp, hw, rfl⟩
  · rintro ⟨p, w, hp, hw, hc⟩
    obtain ⟨d, hd, t, ht, hname⟩ := exists_publicAt_iff.mp ⟨p, hp⟩
    obtain ⟨e, he, hwire⟩ := exists_wireAt_iff.mp ⟨w, hw⟩
    refine ⟨c.name, ⟨⟨d, hd, by rw [ht, Option.map_some, hname]⟩, ?_⟩, ?_⟩
    · simpa using ⟨e, he, hwire⟩
    · rw [hp, hw, hc]

theorem conflicts_eq_nil_iff : conflicts es = [] ↔ RolesAgree es := by
  rw [List.eq_nil_iff_forall_not_mem]
  constructor
  · intro h d hd p hp e he hmem
    obtain ⟨i, hi⟩ := exists_publicAt_iff.mpr ⟨d, hd, p, hp, rfl⟩
    obtain ⟨j, hj⟩ := exists_wireAt_iff.mpr ⟨e, he, hmem⟩
    exact h ⟨p.name, max i j, min i j⟩ (mem_conflicts.mpr ⟨i, j, hi, hj, rfl⟩)
  · intro h c hc
    obtain ⟨i, j, hi, hj, -⟩ := mem_conflicts.mp hc
    obtain ⟨d, hd, p, hp, hname⟩ := exists_publicAt_iff.mp ⟨i, hi⟩
    obtain ⟨e, he, hmem⟩ := exists_wireAt_iff.mp ⟨j, hj⟩
    exact h d hd p hp e he (hname ▸ hmem)

/-- The conflicts among the first `k` equations are those that show up there. -/
theorem mem_conflicts_take {c : Conflict} {k : Nat} :
    c ∈ conflicts (es.take k) ↔ c ∈ conflicts es ∧ c.later < k := by
  have htake : ∀ (x : Option Nat) (i : Nat),
      x.bind (Option.guard fun j => decide (j < k)) = some i ↔ x = some i ∧ i < k := by
    intro x i
    cases x with
    | none => simp
    | some j =>
      simp only [Option.bind_some, Option.guard_eq_some_iff, decide_eq_true_eq, Option.some_inj]
      exact and_congr_right fun h => by rw [h]
  simp only [mem_conflicts, publicAt, wireAt, List.findIdx?_take, htake]
  constructor
  · rintro ⟨p, w, ⟨hp, hpk⟩, ⟨hw, hwk⟩, hc⟩
    exact ⟨⟨p, w, hp, hw, hc⟩, by rw [hc]; exact max_lt hpk hwk⟩
  · rintro ⟨⟨p, w, hp, hw, hc⟩, hk⟩
    rw [hc] at hk
    exact ⟨p, w, ⟨hp, (le_max_left p w).trans_lt hk⟩, ⟨hw, (le_max_right p w).trans_lt hk⟩, hc⟩

theorem earliest_eq_none_iff {cs : List Conflict} : earliest cs = none ↔ cs = [] := by
  cases cs with
  | nil => simp [earliest]
  | cons c cs =>
    rw [earliest]
    split
    · split <;> simp
    · simp

theorem brokenRoles_eq_none_iff : brokenRoles es = none ↔ RolesAgree es := by
  rw [brokenRoles, Option.map_eq_none_iff, earliest_eq_none_iff, conflicts_eq_nil_iff]

theorem earliest_eq_some {cs : List Conflict} {c : Conflict} (h : earliest cs = some c) :
    c ∈ cs ∧ ∀ d ∈ cs, c.later ≤ d.later := by
  induction cs generalizing c with
  | nil => cases h
  | cons first cs ih =>
    rw [earliest] at h
    cases hrest : earliest cs with
    | none =>
      rw [hrest] at h
      cases h
      obtain rfl := earliest_eq_none_iff.mp hrest
      simp
    | some d =>
      obtain ⟨hd, hleast⟩ := ih hrest
      simp only [hrest] at h
      split_ifs at h with hlt
      · cases h
        exact ⟨List.mem_cons_of_mem first hd, List.forall_mem_cons.mpr ⟨hlt.le, hleast⟩⟩
      · cases h
        refine ⟨List.mem_cons_self, List.forall_mem_cons.mpr ⟨le_rfl, fun b hb => ?_⟩⟩
        exact (not_lt.mp hlt).trans (hleast b hb)

/-- **Roles are reported not to agree at the first equation with which they do not.** -/
theorem brokenRoles_eq_some {v : Violation} (h : brokenRoles es = some v) :
    ∃ k : Nat, v.index = k ∧ v.line = (es[k]?).bind (·.line) ∧ ¬ RolesAgree (es.take (k + 1)) ∧
      RolesAgree (es.take k) := by
  obtain ⟨c, hc, rfl⟩ := Option.map_eq_some_iff.mp h
  obtain ⟨hmem, hleast⟩ := earliest_eq_some hc
  refine ⟨c.later, rfl, rfl, ?_, ?_⟩
  · rw [← conflicts_eq_nil_iff]
    exact List.ne_nil_of_mem (mem_conflicts_take.mpr ⟨hmem, Nat.lt_succ_self _⟩)
  · rw [← conflicts_eq_nil_iff, List.eq_nil_iff_forall_not_mem]
    intro d hd
    obtain ⟨hd, hlt⟩ := mem_conflicts_take.mp hd
    exact absurd (hleast d hd) (not_le.mpr hlt)

/-! ## All rules -/

/-- **A program is accepted exactly if every equation fits and all roles agree.** -/
theorem validate_eq_ok_iff : validate es = .ok () ↔ (∀ e ∈ es, e.Fits) ∧ RolesAgree es := by
  have hvalidate : validate es = .ok () ↔ violation? es = none := by
    unfold validate
    cases violation? es with
    | none => simp
    | some v => simp
  rw [hvalidate]
  simp only [violation?, Option.orElse_eq_orElse, Option.orElse_eq_or, Option.or_eq_none_iff,
    firstBroken_eq_none_iff, brokenOperands_eq_none_iff, brokenCount_eq_none_iff,
    brokenLinear_eq_none_iff, brokenPublic_eq_none_iff, brokenRoles_eq_none_iff]
  constructor
  · rintro ⟨hoperands, hcount, hlinear, hpublic, hroles⟩
    refine ⟨fun e he => ?_, hroles⟩
    exact ⟨hoperands e he, (hcount e he).1, (hcount e he).2, hlinear e he, hpublic e he⟩
  · rintro ⟨hfits, hroles⟩
    exact ⟨fun e he => (hfits e he).operands, fun e he => ⟨(hfits e he).names, (hfits e he).wires⟩,
      fun e he => (hfits e he).linear, fun e he => (hfits e he).rhs, hroles⟩

end Expression

end PlonkGates
