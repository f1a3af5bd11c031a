import Mathlib.Algebra.Group.Action.Defs
import Mathlib.Algebra.Order.BigOperators.Group.List
import PlonkGates.Json.Writer
import PlonkGates.Proofs.Listings

/-!
# Which listings can be written

An integer of too many digits is not written, and nothing else stands in the way of a value that is
not nested too deep (`writes_document`). So whether a listing can be written is told by the integers
in it. Those about a gate are small; the number of rows doubles with every equation, and outgrows
the numerals when a program has more than `Listing.longest` of them (`Shows.short_iff`).
-/

namespace PlonkGates

open Text (IsShort)

/-! ## Integers in a value -/

namespace Value

mutual

/-- All integers in a value, in the order in which they are written. -/
def integers : Value → List Int
  | .int z => [z]
  | .list items => integersOfItems items
  | .object entries => integersOfEntries entries
  | _ => []

def integersOfItems : List Value → List Int
  | [] => []
  | v :: vs => integers v ++ integersOfItems vs

def integersOfEntries : List (Text.CodePoints × Value) → List Int
  | [] => []
  | (_, v) :: entries => integers v ++ integersOfEntries entries

end

section Mapped

variable {α : Type} {g : α → List Int}

theorem integersOfItems_map {f : α → Value} (h : ∀ a, integers (f a) = g a) (as : List α) :
    integersOfItems (as.map f) = as.flatMap g := by
  induction as with
  | nil => rfl
  | cons a as ih => rw [List.map_cons, integersOfItems, ih, h, List.flatMap_cons]

theorem flatMap_nil_integers (as : List α) : (as.flatMap fun _ => ([] : List Int)) = [] :=
  List.flatMap_eq_nil_iff.mpr fun _ _ => rfl

theorem integersOfEntries_map {f : α → Text.CodePoints × Value} (h : ∀ a, integers (f a).2 = g a)
    (as : List α) : integersOfEntries (as.map f) = as.flatMap g := by
  induction as with
  | nil => rfl
  | cons a as ih => rw [List.map_cons, integersOfEntries, ih, h, List.flatMap_cons]

end Mapped

end Value

/-! ## Writing values -/

namespace Json

mutual

/-- **A value is written if its integers are short.** -/
theorem writes_render (indent : Option Nat) (depth : Nat) :
    (v : Value) → Writes (∀ z ∈ v.integers, IsShort z) (render indent depth v)
  | .null => (writes_ok _).congr (by simp [Value.integers])
  | .bool _ => (writes_ok _).congr (by simp [Value.integers])
  | .int z => ((Text.writes_writeInteger z).map _).congr List.forall_mem_singleton.symm
  | .real _ => (writes_ok _).congr (by simp [Value.integers])
  | .text _ => (writes_ok _).congr (by simp [Value.integers])
  | .codePoints _ => (writes_ok _).congr (by simp [Value.integers])
  | .element _ => (writes_ok _).congr (by simp [Value.integers])
  | .list [] => (writes_ok _).congr (by simp [Value.integers, Value.integersOfItems])
  | .list (v :: vs) =>
    ((writes_render indent (depth + 1) v).pair (writes_renderItems indent (depth + 1) vs) _).congr
      List.forall_mem_append.symm
  | .object [] => (writes_ok _).congr (by simp [Value.integers, Value.integersOfEntries])
  | .object ((_, v) :: entries) =>
    ((writes_render indent (depth + 1) v).pair
      (writes_renderEntries indent (depth + 1) entries) _).congr List.forall_mem_append.symm

theorem writes_renderItems (indent : Option Nat) (depth : Nat) :
    (vs : List Value) →
      Writes (∀ z ∈ Value.integersOfItems vs, IsShort z) (renderItems indent depth vs)
  | [] => (writes_ok _).congr (by simp [Value.integersOfItems])
  | v :: vs =>
    ((writes_render indent depth v).pair (writes_renderItems indent depth vs) _).congr
      List.forall_mem_append.symm

theorem writes_renderEntries (indent : Option Nat) (depth : Nat) :
    (entries : List (Text.CodePoints × Value)) →
      Writes (∀ z ∈ Value.integersOfEntries entries, IsShort z) (renderEntries indent depth entries)
  | [] => (writes_ok _).congr (by simp [Value.integersOfEntries])
  | (_, v) :: entries =>
    ((writes_render indent depth v).pair (writes_renderEntries indent depth entries) _).congr
      List.forall_mem_append.symm

end

theorem writes_document {depth : Nat} (indent : Option Nat) {v : Value}
    (h : stepsOutside + nesting v ≤ depth) :
    Writes (∀ z ∈ v.integers, IsShort z) (document depth indent v) := by
  rw [document, if_neg (Nat.not_lt.mpr h)]
  exact ((writes_render indent 0 v).map _).map _

/-! ## Nesting -/

section Nesting

variable {n : Nat}

theorem nestingItems_le {vs : List Value} (h : ∀ v ∈ vs, nesting v ≤ n) : nestingItems vs ≤ n := by
  induction vs with
  | nil => exact Nat.zero_le n
  | cons v vs ih =>
    obtain ⟨hv, hvs⟩ := List.forall_mem_cons.mp h
    exact max_le hv (ih hvs)

theorem nestingEntries_le {entries : List (Text.CodePoints × Value)}
    (h : ∀ x ∈ entries, nesting x.2 ≤ n) : nestingEntries entries ≤ n := by
  induction entries with
  | nil => exact Nat.zero_le n
  | cons x entries ih =>
    obtain ⟨hx, hentries⟩ := List.forall_mem_cons.mp h
    exact max_le hx (ih hentries)

theorem nesting_list_le {vs : List Value} (h : ∀ v ∈ vs, nesting v ≤ n) :
    nesting (.list vs) ≤ n + 1 := by
  cases vs with
  | nil => exact Nat.zero_le _
  | cons v vs =>
    rw [nesting, Nat.add_comm]
    exact Nat.succ_le_succ (nestingItems_le h)

theorem nesting_object_le {entries : List (Text.CodePoints × Value)}
    (h : ∀ x ∈ entries, nesting x.2 ≤ n) : nesting (.object entries) ≤ n + 1 := by
  cases entries with
  | nil => exact Nat.zero_le _
  | cons x entries =>
    rw [nesting, Nat.add_comm]
    exact Nat.succ_le_succ (nestingEntries_le h)

end Nesting

end Json

/-! ## Listings as values -/

open Json

namespace ListingEntry

theorem nesting_toValue (entry : ListingEntry) : nesting entry.toValue ≤ 2 := by
  refine nesting_object_le ?_
  simp only [List.forall_mem_cons, List.not_mem_nil, false_imp_iff, implies_true, and_true]
  refine ⟨Nat.zero_le 1, ?_, ?_, ?_, ?_⟩
  · cases entry.line <;> exact Nat.zero_le 1
  · exact nesting_object_le (List.forall_mem_map.mpr fun _ _ => Nat.le_refl 0)
  · refine nesting_object_le (List.forall_mem_map.mpr fun x _ => ?_)
    cases x.2 <;> exact Nat.le_refl 0
  · exact nesting_list_le (List.forall_mem_map.mpr fun _ _ => Nat.le_refl 0)

theorem integers_toValue (entry : ListingEntry) :
    entry.toValue.integers = entry.line.toList ++ entry.selectors.map (·.2) ++
      entry.witnessIndices.map fun i : Nat => (i : Int) := by
  simp only [toValue, Value.integers, Value.integersOfEntries]
  rw [Value.integersOfEntries_map (g := fun x => [x.2]) fun _ => rfl,
    Value.integersOfEntries_map (g := fun _ => []) fun x => by cases x.2 <;> rfl,
    Value.integersOfItems_map (g := fun i : Nat => [(i : Int)]) fun _ => rfl,
    Value.flatMap_nil_integers, ← List.map_eq_flatMap, ← List.map_eq_flatMap]
  cases entry.line <;> simp [Value.integers]

/-- The integers about a gate are short if the number of its line and that of the witnesses are. -/
theorem Shows.isShort {F : PrimeField} {witnesses : List String} {e : Expression} {g : Gate}
    {entry : ListingEntry} (h : entry.Shows F witnesses e g) (hF : IsShort F.order)
    (hline : ∀ line, e.line = some line → IsShort line) (hwitnesses : IsShort witnesses.length) :
    ∀ z ∈ entry.toValue.integers, IsShort z := by
  intro z hz
  rw [integers_toValue, List.mem_append, List.mem_append] at hz
  rcases hz with (hz | hz) | hz
  · rw [h.line, Option.mem_toList] at hz
    exact hline z hz
  · obtain ⟨y, -, hlow, hhigh, -⟩ := exists_of_forall₂ h.selectors hz
    exact Text.isShort_of_natAbs_le (by omega) hF
  · obtain ⟨i, hi, rfl⟩ := List.mem_map.mp hz
    obtain ⟨name, -, hfree, hbound⟩ := exists_of_forall₂ h.wires hi
    refine Text.isShort_of_natAbs_le ?_ hwitnesses
    cases name with
    | none =>
      rw [hfree.mp rfl]
      exact Nat.zero_le _
    | some name =>
      rw [Int.natAbs_natCast, Int.natAbs_natCast]
      exact (hbound name rfl).1

end ListingEntry

namespace Listing

theorem nesting_toValue (l : Listing) : nesting l.toValue ≤ 4 := by
  refine nesting_object_le ?_
  simp only [List.forall_mem_cons, List.not_mem_nil, false_imp_iff, implies_true, and_true]
  refine ⟨Nat.zero_le 3, Nat.zero_le 3, Nat.zero_le 3, ?_, ?_, ?_⟩
  · exact nesting_list_le (List.forall_mem_map.mpr fun _ _ => Nat.zero_le 2)
  · exact nesting_list_le (List.forall_mem_map.mpr fun _ _ => Nat.zero_le 2)
  · exact nesting_list_le (List.forall_mem_map.mpr fun entry _ => entry.nesting_toValue)

theorem integers_toValue (l : Listing) :
    l.toValue.integers = (l.gateCount : Int) :: (l.paddedGates : Int) ::
      l.gates.flatMap fun entry => entry.toValue.integers := by
  simp only [toValue, Value.integers, Value.integersOfEntries]
  rw [Value.integersOfItems_map (g := fun _ => []) fun _ => rfl,
    Value.integersOfItems_map (g := fun _ => []) fun _ => rfl,
    Value.integersOfItems_map (g := fun entry => entry.toValue.integers) fun _ => rfl,
    Value.flatMap_nil_integers, Value.flatMap_nil_integers]
  simp

/-! ## Large programs -/

/-- The largest number of gates for which the number of rows has a numeral. -/
def longest : Nat := 14283

/-- The powers of two below a bound, given the last one of them. -/
theorem pow_two_lt_iff {bound last : Nat} (hlast : Nat.pow 2 last < bound)
    (hnext : bound ≤ Nat.pow 2 (last + 1)) (n : Nat) : Nat.pow 2 n < bound ↔ n ≤ last := by
  constructor
  · intro hn
    by_contra hlong
    have hpow : Nat.pow 2 (last + 1) ≤ Nat.pow 2 n :=
      Nat.pow_le_pow_right (by decide) (by omega)
    exact absurd (hnext.trans hpow) (Nat.not_le.mpr hn)
  · intro hn
    exact lt_of_le_of_lt (Nat.pow_le_pow_right (by decide) hn) hlast

/-- **The number of rows can be written for so many gates and no more.** -/
theorem isShort_paddedGateCount_iff (n : Nat) : IsShort (paddedGateCount n) ↔ n ≤ longest := by
  have hlast : Nat.pow 2 (longest + 1) < Text.numeralBound := by decide +kernel
  have hnext : Text.numeralBound ≤ Nat.pow 2 (longest + 1 + 1) := by decide +kernel
  rw [IsShort, paddedGateCount, Int.natAbs_natCast, pow_two_lt_iff hlast hnext,
    Nat.add_le_add_iff_right]

theorem isShort_of_le_longest {n : Nat} (h : n ≤ longest * maxNames) : IsShort n := by
  have hbound : IsShort ((longest * maxNames : Nat) : Int) := by
    unfold IsShort
    decide +kernel
  exact Text.isShort_of_natAbs_le (by rwa [Int.natAbs_natCast, Int.natAbs_natCast]) hbound

variable {F : PrimeField} {es : List Expression} {gates : List Gate} {listing : Listing}

/-- There are at most as many witnesses as the rules allow names. -/
theorem Shows.length_witnesses_le (h : listing.Shows F es gates) (hfits : ∀ e ∈ es, e.Fits) :
    listing.witnesses.length ≤ es.length * maxNames := by
  have hnodup : listing.witnesses.Nodup := h.witnesses_sorted.imp ne_of_lt
  have hsubset : listing.witnesses ⊆ es.flatMap fun e => e.names.dedup := by
    intro name hname
    obtain ⟨e, he, hmem⟩ := (h.mem_names name).mp (Or.inl hname)
    exact List.mem_flatMap.mpr ⟨e, he, List.mem_dedup.mpr hmem⟩
  calc listing.witnesses.length
      ≤ (es.flatMap fun e => e.names.dedup).length :=
        (List.subperm_of_subset hnodup hsubset).length_le
    _ = (es.map fun e => e.names.dedup.length).sum := List.length_flatMap
    _ ≤ (es.map fun e => e.names.dedup.length).length • maxNames := by
        refine List.sum_le_card_nsmul _ _ (List.forall_mem_map.mpr fun e he => ?_)
        rw [← List.card_toFinset]
        exact (hfits e he).names
    _ = es.length * maxNames := by rw [List.length_map, smul_eq_mul]

/-- **A listing can be written if the program is not too long,** and if the numbers of its lines are
not. -/
theorem Shows.short_iff (h : listing.Shows F es gates) (hfits : ∀ e ∈ es, e.Fits)
    (hF : IsShort F.order) :
    (∀ z ∈ listing.toValue.integers, IsShort z) ↔
      es.length ≤ longest ∧ ∀ e ∈ es, ∀ line, e.line = some line → IsShort line := by
  rw [integers_toValue, List.forall_mem_cons, List.forall_mem_cons, h.paddedGates,
    isShort_paddedGateCount_iff, h.gateCount, List.forall_mem_flatMap]
  have hgates : es.length ≤ gates.length := h.length_gates.ge
  constructor
  · rintro ⟨-, hlength, hentries⟩
    refine ⟨hlength, fun e he line hline => ?_⟩
    rw [← List.map_fst_zip hgates] at he
    obtain ⟨x, hx, rfl⟩ := List.mem_map.mp he
    obtain ⟨entry, hentry, hshows⟩ := exists_of_forall₂ h.entries.flip hx
    refine hentries entry hentry line ?_
    rw [ListingEntry.integers_toValue, hshows.line, hline]
    simp
  · rintro ⟨hlength, hlines⟩
    have hcount : es.length ≤ longest * maxNames :=
      hlength.trans (Nat.le_mul_of_pos_right longest (by decide))
    have hwitnesses : listing.witnesses.length ≤ longest * maxNames :=
      (h.length_witnesses_le hfits).trans (Nat.mul_le_mul_right _ hlength)
    refine ⟨isShort_of_le_longest hcount, hlength, fun entry hentry => ?_⟩
    obtain ⟨x, hx, hshows⟩ := exists_of_forall₂ h.entries hentry
    exact hshows.isShort hF (hlines x.1 (List.of_mem_zip hx).1)
      (isShort_of_le_longest hwitnesses)

end Listing

end PlonkGates
