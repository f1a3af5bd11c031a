import PlonkGates.Json.Reader
import PlonkGates.Proofs.Numerals

/-!
# Integers in a JSON text

A numeral with too many digits is not read, so every value that is read can be written again
(`isDisplayable_of_parse`). The reader of values calls those of items and of entries, and they call
it, each with less fuel: what the three read with so much fuel is told at once (`ReadsShort`).
-/

namespace PlonkGates

open Text (IsShort)

/-! ## Values -/

namespace Value

theorem forall_mem_putEntry {P : Value → Prop} (key : Text.CodePoints) {v : Value}
    {entries : List (Text.CodePoints × Value)} (hv : P v) (h : ∀ x ∈ entries, P x.2) :
    ∀ x ∈ putEntry key v entries, P x.2 := by
  induction entries with
  | nil => exact List.forall_mem_singleton.mpr hv
  | cons x entries ih =>
    obtain ⟨hx, hrest⟩ := List.forall_mem_cons.mp h
    rw [putEntry]
    split_ifs
    · exact List.forall_mem_cons.mpr ⟨hv, hrest⟩
    · exact List.forall_mem_cons.mpr ⟨hx, ih hrest⟩

theorem isDisplayable_int {z : Int} : (int z).isDisplayable = true ↔ IsShort z := by
  rw [isDisplayable, decide_eq_true_iff]

theorem isDisplayable_list {items : List Value} :
    (list items).isDisplayable = true ↔ ∀ v ∈ items, v.isDisplayable = true := by
  rw [isDisplayable]
  induction items with
  | nil => simp [areDisplayable]
  | cons v items ih => rw [areDisplayable, Bool.and_eq_true, ih, List.forall_mem_cons]

theorem isDisplayable_object {entries : List (Text.CodePoints × Value)} :
    (object entries).isDisplayable = true ↔ ∀ x ∈ entries, x.2.isDisplayable = true := by
  rw [isDisplayable]
  induction entries with
  | nil => simp [entriesDisplayable]
  | cons x entries ih => rw [entriesDisplayable, Bool.and_eq_true, ih, List.forall_mem_cons]

theorem isDisplayable_ofCodePoints (points : Text.CodePoints) :
    (ofCodePoints points).isDisplayable = true := by
  rw [ofCodePoints]
  split_ifs <;> rfl

/-- What can be shown in a message can be shown in an equation. -/
theorem isWritable_of_isDisplayable {v : Value} (h : v.isDisplayable = true) :
    v.isWritable = true := by
  cases v with
  | element x => exact (Bool.and_eq_true_iff.mp h).1
  | _ => exact h

end Value

/-! ## The reader -/

namespace Json

variable {cs rest : List Char} {v : Value}

theorem isDisplayable_of_word? {choice : List (List Char × Value)}
    (hchoice : ∀ x ∈ choice, x.2.isDisplayable = true) (h : word? choice cs = some (v, rest)) :
    v.isDisplayable = true := by
  obtain ⟨x, hfind, hx⟩ := Option.map_eq_some_iff.mp h
  cases hx
  exact hchoice x (List.mem_of_find?_eq_some hfind)

theorem isDisplayable_unsigned {negative : Bool} (h : unsigned negative cs = .ok (v, rest)) :
    v.isDisplayable = true := by
  unfold unsigned at h
  dsimp only at h
  generalize hwhole : (if (cs.takeWhile Text.isAsciiDigit).head? = some '0' then ['0']
    else cs.takeWhile Text.isAsciiDigit) = whole at h
  have hdigits : ∀ c ∈ whole, Text.isAsciiDigit c = true := by
    rw [← hwhole]
    split_ifs
    · exact List.forall_mem_singleton.mpr rfl
    · exact List.all_eq_true.mp List.all_takeWhile
  by_cases hinteger : ((fraction (cs.drop whole.length)).1.isEmpty &&
      (exponent (fraction (cs.drop whole.length)).2).1.isEmpty) = true
  · rw [if_pos hinteger] at h
    split_ifs at h with _ hlong
    · cases h
      refine Value.isDisplayable_int.mpr (Text.isShort_of_natAbs_le (Int.natAbs_neg _).le ?_)
      exact Text.isShort_ofAsciiDigits hdigits (Nat.not_lt.mp hlong)
    · cases h
      exact Value.isDisplayable_int.mpr (Text.isShort_ofAsciiDigits hdigits (Nat.not_lt.mp hlong))
  · rw [if_neg hinteger] at h
    cases hreal : Text.Scientific.ofUnsigned? negative (whole ++
        (fraction (cs.drop whole.length)).1 ++
        (exponent (fraction (cs.drop whole.length)).2).1) with
    | none =>
      rw [hreal] at h
      split_ifs at h
    | some x =>
      rw [hreal] at h
      split_ifs at h
      cases h
      rfl

/-- What is read with so much fuel has short integers only. -/
structure ReadsShort (fuel : Nat) : Prop where
  value : ∀ {depth cs v rest}, value depth fuel cs = .ok (v, rest) → v.isDisplayable = true
  items : ∀ {depth cs vs rest}, listItems depth fuel cs = .ok (vs, rest) →
    ∀ v ∈ vs, v.isDisplayable = true
  entries : ∀ {depth read cs entries rest}, (∀ x ∈ read, x.2.isDisplayable = true) →
    objectEntries depth fuel read cs = .ok (entries, rest) → ∀ x ∈ entries, x.2.isDisplayable = true

variable {fuel : Nat}

theorem ReadsShort.value_succ (ih : ReadsShort fuel) {depth : Nat}
    (h : Json.value depth (fuel + 1) cs = .ok (v, rest)) : v.isDisplayable = true := by
  cases cs with
  | nil => cases h
  | cons c cs =>
    rw [Json.value] at h
    cases hword : word? words (c :: cs) with
    | some result =>
      rw [hword] at h
      cases h
      exact isDisplayable_of_word? (by decide +kernel) hword
    | none =>
      cases hnumber : word? numberWords (c :: cs) with
      | some result =>
        rw [hword, hnumber] at h
        dsimp only [readNumberWord] at h
        split_ifs at h
        cases h
        exact isDisplayable_of_word? (by decide +kernel) hnumber
      | none =>
        rw [hword, hnumber] at h
        dsimp only at h
        split_ifs at h with hquote hlist hobject hminus
        · obtain ⟨⟨points, _⟩, -, h⟩ := map_eq_ok.mp h
          cases h
          exact Value.isDisplayable_ofCodePoints points
        · obtain ⟨inner, -, h⟩ := bind_eq_ok.mp h
          split at h
          · cases h
            exact Value.isDisplayable_list.mpr (by simp)
          · obtain ⟨⟨items, rest⟩, hitems, h⟩ := bind_eq_ok.mp h
            cases h
            exact Value.isDisplayable_list.mpr (ih.items hitems)
        · obtain ⟨inner, -, h⟩ := bind_eq_ok.mp h
          split at h
          · cases h
            exact Value.isDisplayable_object.mpr (by simp)
          · obtain ⟨⟨entries, rest⟩, hentries, h⟩ := bind_eq_ok.mp h
            cases h
            exact Value.isDisplayable_object.mpr (ih.entries (by simp) hentries)
        · exact isDisplayable_unsigned h
        · exact isDisplayable_unsigned h

theorem ReadsShort.items_succ (ih : ReadsShort fuel) {depth : Nat} {vs : List Value}
    (h : listItems depth (fuel + 1) cs = .ok (vs, rest)) : ∀ v ∈ vs, v.isDisplayable = true := by
  rw [listItems] at h
  obtain ⟨⟨v, after⟩, hv, h⟩ := bind_eq_ok.mp h
  dsimp only at h
  split at h
  · cases h
    exact List.forall_mem_singleton.mpr (ih.value hv)
  · obtain ⟨⟨vs, _⟩, hvs, h⟩ := bind_eq_ok.mp h
    cases h
    exact List.forall_mem_cons.mpr ⟨ih.value hv, ih.items hvs⟩
  · cases h

theorem ReadsShort.entries_succ (ih : ReadsShort fuel) {depth : Nat}
    {read entries : List (Text.CodePoints × Value)} (hread : ∀ x ∈ read, x.2.isDisplayable = true)
    (h : objectEntries depth (fuel + 1) read cs = .ok (entries, rest)) :
    ∀ x ∈ entries, x.2.isDisplayable = true := by
  cases cs with
  | nil => cases h
  | cons c cs =>
    rw [objectEntries] at h
    split_ifs at h
    obtain ⟨⟨key, after⟩, -, h⟩ := bind_eq_ok.mp h
    dsimp only at h
    split at h
    · obtain ⟨⟨v, _⟩, hv, h⟩ := bind_eq_ok.mp h
      have hput := Value.forall_mem_putEntry (P := fun v => v.isDisplayable = true)
        key (ih.value hv) hread
      dsimp only at h
      split at h
      · cases h
        exact hput
      · exact ih.entries hput h
      · cases h
    · cases h

theorem readsShort (fuel : Nat) : ReadsShort fuel := by
  induction fuel with
  | zero =>
    refine ⟨fun h => ?_, fun h => ?_, fun _ h => ?_⟩
    · cases h
    · cases h
    · cases h
  | succ fuel ih => exact ⟨ih.value_succ, ih.items_succ, ih.entries_succ⟩

/-- **The integers in a JSON text have numerals:** one that is too long is not read. -/
theorem isDisplayable_of_parse {depth : Nat} (h : parse depth cs = .ok v) :
    v.isDisplayable = true := by
  obtain ⟨⟨w, rest⟩, hw, h⟩ := bind_eq_ok.mp h
  dsimp only at h
  split_ifs at h
  cases h
  exact (readsShort _).value hw

end Json

end PlonkGates
