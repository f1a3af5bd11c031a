import Mathlib.Tactic.SplitIfs
import PlonkGates.Disk.Path
import PlonkGates.Proofs.Outcome

/-!
# Texts without surrogates

No character is a surrogate, so the code points of a text spell it (`CodePoints.toText_ofText`), and
nothing keeps it from being printed. The path of a text has names without surrogates
(`Path.isPlain_ofText`), so nothing keeps it from being encoded.
-/

namespace PlonkGates

/-! ## Code points -/

namespace Text.CodePoints

theorem runFrom_eq_none_iff {barred : Nat → Bool} {i : Nat} {points : List Nat} :
    runFrom barred i points = none ↔ ∀ n ∈ points, barred n = false := by
  induction points generalizing i with
  | nil => simp [runFrom]
  | cons n points ih =>
    rw [runFrom, List.forall_mem_cons, ← ih (i := i + 1)]
    cases barred n <;> simp

theorem isSurrogate_toNat (c : Char) : isSurrogate c.toNat = false := by
  have hvalid := c.valid
  simp only [isSurrogate, isHighSurrogate, isLowSurrogate, Bool.or_eq_false_iff,
    Bool.and_eq_false_iff, decide_eq_false_iff_not]
  simp only [UInt32.isValidChar, Nat.isValidChar] at hvalid
  change c.toNat < _ ∨ _ < c.toNat ∧ c.toNat < _ at hvalid
  omega

theorem isSurrogate_ofText {s : String} {n : Nat} (h : n ∈ (ofText s).points) :
    isSurrogate n = false := by
  obtain ⟨c, -, rfl⟩ := List.mem_map.mp h
  exact isSurrogate_toNat c

/-- **A text is what its code points spell.** -/
@[simp] theorem toText_ofText (s : String) : (ofText s).toText = s := by
  have hchars : charOf ∘ Char.toNat = id := funext fun c => by
    rw [Function.comp_apply, charOf, isSurrogate_toNat, if_neg Bool.false_ne_true,
      Char.ofNat_toNat, id_eq]
  rw [toText, toChars, ofText, ofChars, List.map_map, hchars, List.map_id, String.ofList_toList]

end Text.CodePoints

/-! ## Paths -/

theorem forall_mem_intercalate {α : Type} {P : α → Prop} {sep : List α} {pieces : List (List α)}
    (hsep : ∀ a ∈ sep, P a) (hpieces : ∀ piece ∈ pieces, ∀ a ∈ piece, P a) :
    ∀ a ∈ sep.intercalate pieces, P a := by
  induction pieces with
  | nil => simp
  | cons piece pieces ih =>
    obtain ⟨hpiece, hrest⟩ := List.forall_mem_cons.mp hpieces
    cases pieces with
    | nil => simpa using hpiece
    | cons next pieces =>
      rw [List.intercalate_cons_cons, List.append_assoc]
      exact List.forall_mem_append.mpr ⟨hpiece, List.forall_mem_append.mpr ⟨hsep, ih hrest⟩⟩

namespace Path

open Text (isSurrogate)
open Text.CodePoints (runFrom_eq_none_iff isSurrogate_ofText)

variable {p : Path}

/-- No name holds a surrogate, so that the path can be printed and encoded. -/
def IsPlain (p : Path) : Prop := ∀ part ∈ p.parts, ∀ n ∈ part.points, isSurrogate n = false

theorem mem_of_mem_pieces {points piece : List Nat} {n : Nat} (hpiece : piece ∈ pieces points)
    (hn : n ∈ piece) : n ∈ points := by
  induction points generalizing piece with
  | nil =>
    rw [pieces, List.mem_singleton] at hpiece
    rwa [hpiece] at hn
  | cons m points ih =>
    rw [pieces] at hpiece
    cases hrest : pieces points with
    | nil =>
      rw [hrest] at hpiece
      obtain rfl := List.mem_singleton.mp hpiece
      rw [List.mem_singleton] at hn
      exact hn ▸ List.mem_cons_self
    | cons first others =>
      rw [hrest] at hpiece ih
      dsimp only at hpiece
      split_ifs at hpiece with hslash
      · rcases List.mem_cons.mp hpiece with rfl | hpiece
        · cases hn
        · exact List.mem_cons_of_mem m (ih hpiece hn)
      · rcases List.mem_cons.mp hpiece with rfl | hpiece
        · exact List.mem_cons.mpr ((List.mem_cons.mp hn).imp_right (ih List.mem_cons_self))
        · exact List.mem_cons_of_mem m (ih (List.mem_cons_of_mem first hpiece) hn)

theorem isPlain_ofText (s : String) : (ofText s).IsPlain := by
  intro part hpart n hn
  obtain ⟨piece, hpiece, rfl⟩ := List.mem_map.mp hpart
  exact isSurrogate_ofText (mem_of_mem_pieces (List.mem_of_mem_filter hpiece) hn)

theorem IsPlain.parent (h : p.IsPlain) : p.parent.IsPlain :=
  fun part hpart => h part (List.dropLast_subset p.parts hpart)

theorem IsPlain.text (h : p.IsPlain) : ∀ n ∈ p.text.points, isSurrogate n = false := by
  rw [Path.text]
  split_ifs
  · decide
  · refine List.forall_mem_append.mpr ⟨fun n => isSurrogate_ofText, ?_⟩
    exact forall_mem_intercalate (by decide) (List.forall_mem_map.mpr h)

theorem IsPlain.surrogates? (h : p.IsPlain) : p.text.surrogates? = none :=
  runFrom_eq_none_iff.mpr h.text

theorem IsPlain.barrier? (h : p.IsPlain) : p.text.barrier? = none :=
  runFrom_eq_none_iff.mpr fun n hn => by rw [h.text n hn, Bool.false_and]

theorem IsPlain.nameBarrier? (h : p.IsPlain) (start : Path) : p.nameBarrier? start = none := by
  have hname : p.name.barrier? = none := by
    refine runFrom_eq_none_iff.mpr fun n hn => ?_
    rw [name] at hn
    cases hlast : p.parts.getLast? with
    | none =>
      rw [hlast] at hn
      cases hn
    | some last =>
      rw [hlast] at hn
      rw [h last (List.mem_of_getLast? hlast) n hn, Bool.false_and]
  rw [Path.nameBarrier?, hname]
  rfl

end Path

end PlonkGates
