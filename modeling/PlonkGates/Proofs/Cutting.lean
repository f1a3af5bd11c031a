import PlonkGates.Proofs.Grammar
import Mathlib.Tactic.SplitIfs

/-!
# Cutting splits a text

The lexemes that a text is cut into are a split of the text without its comments, unless one of them
is stray (`split_cut`). While a text is cut, the characters of the open lexeme have been read but do
not belong to a lexeme yet: they are pending in front of the rest of the text.
-/

namespace PlonkGates

/-! ## Characters and lines -/

namespace Cursor

theorem line_next (place : Cursor) (c : Char) :
    (place.next c).line = place.line + [c].count '\n' := by
  by_cases h : c = '\n' <;> simp [next, h]

theorem line_next_of_line {place : Cursor} {before : List Char}
    (h : place.line = 1 + before.count '\n') (c : Char) :
    (place.next c).line = 1 + (before ++ [c]).count '\n' := by
  rw [line_next, h, List.count_append, Nat.add_assoc]

/-- The place after a text. -/
def after (place : Cursor) (cs : List Char) : Cursor := cs.foldl next place

@[simp] theorem after_cons (place : Cursor) (c : Char) (cs : List Char) :
    place.after (c :: cs) = (place.next c).after cs := rfl

theorem line_after (place : Cursor) (cs : List Char) :
    (place.after cs).line = place.line + cs.count '\n' := by
  induction cs generalizing place with
  | nil => rfl
  | cons c cs ih =>
    rw [after_cons, ih, line_next, List.count_singleton, List.count_cons]
    omega

theorem line_after_of_line {place : Cursor} {before : List Char}
    (h : place.line = 1 + before.count '\n') (cs : List Char) :
    (place.after cs).line = 1 + (before ++ cs).count '\n' := by
  rw [line_after, h, List.count_append, Nat.add_assoc]

end Cursor

namespace Lexeme

variable {c : Char}

theorem isGap_ne_newline (h : isGap c = true) : c ≠ '\n' := by
  rintro rfl
  exact absurd h (by decide)

theorem isGap_ne_hash (h : isGap c = true) : c ≠ '#' := by
  rintro rfl
  exact absurd h (by decide)

end Lexeme

namespace LexemeKind

variable {kind : LexemeKind} {c : Char} {text : List Char}

/-- No lexeme goes on with the mark of a comment. -/
theorem ne_hash_of_continues (h : kind.continues c = true) : c ≠ '#' := by
  rintro rfl
  cases kind <;> exact absurd h (by decide)

/-- No lexeme goes on with a gap. -/
theorem not_gap_of_continues (h : kind.continues c = true) : Lexeme.isGap c = false := by
  rw [Bool.eq_false_iff]
  intro hgap
  simp only [Lexeme.isGap, Bool.or_eq_true, beq_iff_eq] at hgap
  rcases hgap with ((rfl | rfl) | rfl) | rfl <;> cases kind <;> exact absurd h (by decide)

theorem Spells.ne_nil (h : kind.Spells text) : text ≠ [] := by
  rintro rfl
  cases kind <;> simp [Spells] at h

/-- A lexeme stays one when it goes on. -/
theorem Spells.append (h : kind.Spells text) (hc : kind.continues c = true) :
    kind.Spells (text ++ [c]) := by
  cases kind with
  | digits => exact ⟨by simp, List.forall_mem_append.mpr ⟨h.2, by simpa [continues] using hc⟩⟩
  | newlines =>
    have hline : c = '\n' := by simpa [continues] using hc
    exact ⟨by simp, List.forall_mem_append.mpr ⟨h.2, by simpa using hline⟩⟩
  | word =>
    obtain ⟨d, ds, rfl, hd, hds⟩ := h
    exact ⟨d, ds ++ [c], rfl, hd, List.forall_mem_append.mpr ⟨hds, by simpa [continues] using hc⟩⟩
  | sign | semicolon | equals | star | zero | stray => cases hc

end LexemeKind

/-- A character that is not stray is a lexeme of its own. -/
theorem Lexeme.spells_kindOf {c : Char} (h : kindOf c ≠ .stray) : (kindOf c).Spells [c] := by
  revert h
  rw [kindOf]
  split_ifs with hsign hline hsemi heq hstar hdigit hletter
  · exact fun _ => by simpa [LexemeKind.Spells] using hsign
  · exact fun _ => ⟨by simp, by simpa using hline⟩
  · exact fun _ => congrArg (fun d => [d]) hsemi
  · exact fun _ => congrArg (fun d => [d]) heq
  · exact fun _ => congrArg (fun d => [d]) hstar
  · exact fun _ => ⟨by simp, by simpa using hdigit⟩
  · exact fun _ => ⟨c, [], rfl, hletter, by simp⟩
  · exact fun h => absurd rfl h

/-! ## Texts without comments -/

section Comments

variable {c : Char} {inside : Bool} {cs : List Char}

theorem withoutComments_newline : withoutComments inside ('\n' :: cs) =
    '\n' :: withoutComments false cs := by
  simp [withoutComments]

theorem withoutComments_inside (h : c ≠ '\n') :
    withoutComments true (c :: cs) = withoutComments true cs := by
  simp [withoutComments, h]

theorem withoutComments_hash : withoutComments false ('#' :: cs) = withoutComments true cs := by
  simp [withoutComments]

theorem withoutComments_cons (h : c ≠ '#') :
    withoutComments false (c :: cs) = c :: withoutComments false cs := by
  by_cases hline : c = '\n' <;> simp [withoutComments, hline, h]

end Comments

/-! ## Modes -/

namespace Mode

/-- The characters of the open lexeme. -/
def pending : Mode → List Char
  | inside _ reversed _ => reversed.reverse
  | _ => []

def isComment : Mode → Bool
  | comment => true
  | _ => false

theorem isComment_inside (kind : LexemeKind) (reversed : List Char) (start : Cursor) :
    (inside kind reversed start).isComment = false := rfl

variable {mode : Mode} {c : Char} {place : Cursor} {before cs : List Char}

/-- A character that is accepted is pending, or falls away with its comment. -/
theorem pending_push (h : mode.accepts c = true) :
    (mode.push c).pending ++ withoutComments (mode.push c).isComment cs =
      mode.pending ++ withoutComments mode.isComment (c :: cs) := by
  cases mode with
  | idle => cases h
  | comment => exact (withoutComments_inside (by simpa [accepts] using h)).symm
  | inside kind reversed start =>
    simp only [push, pending, isComment, List.reverse_cons, List.append_assoc,
      withoutComments_cons (LexemeKind.ne_hash_of_continues h)]
    rfl

/-- A character that is not accepted is not in a comment. -/
theorem withoutComments_of_not_accepts (h : mode.accepts c = false) :
    withoutComments mode.isComment (c :: cs) = withoutComments false (c :: cs) := by
  cases mode with
  | comment =>
    have hline : c = '\n' := by simpa [accepts] using h
    rw [hline, withoutComments_newline, withoutComments_newline]
  | idle | inside => rfl

/-- A mode in which a text is read on at a place: `before` stands in front of what is pending. -/
def ReadsAt : Mode → List Char → Cursor → Prop
  | inside kind reversed start, before, place =>
    (kind ≠ .stray → kind.Spells reversed.reverse) ∧ start.line = 1 + before.count '\n' ∧
      place.line = 1 + (before ++ reversed.reverse).count '\n'
  | _, before, place => place.line = 1 + before.count '\n'

theorem ReadsAt.line (h : mode.ReadsAt before place) :
    place.line = 1 + (before ++ mode.pending).count '\n' := by
  cases mode with
  | inside => exact h.2.2
  | idle | comment => simpa [pending, ReadsAt] using h

theorem ReadsAt.push (h : mode.ReadsAt before place) (hc : mode.accepts c = true) :
    (mode.push c).ReadsAt before (place.next c) := by
  cases mode with
  | idle => cases hc
  | comment =>
    have hline : c ≠ '\n' := by simpa [accepts] using hc
    show (place.next c).line = _
    rw [Cursor.line_next, List.count_singleton, if_neg (by simpa using hline)]
    exact h
  | inside kind reversed start =>
    obtain ⟨hspells, hstart, hplace⟩ := h
    refine ⟨fun hstray => ?_, hstart, ?_⟩
    · rw [List.reverse_cons]
      exact (hspells hstray).append hc
    · rw [List.reverse_cons, ← List.append_assoc]
      exact Cursor.line_next_of_line hplace c

end Mode

/-! ## The split -/

namespace Lexeme

variable {before text : List Char} {ls : List Lexeme} {c : Char} {mode : Mode} {place : Cursor}
  {cs : List Char}

theorem cutFrom_accepts (h : mode.accepts c = true) :
    cutFrom mode place (c :: cs) = cutFrom (mode.push c) (place.next c) cs := if_pos h

theorem cutFrom_opens (h : mode.accepts c = false) : cutFrom mode place (c :: cs) =
    mode.close ++ cutFrom (Mode.opening c place) (place.next c) cs := by
  rw [cutFrom, if_neg (by simp [h])]

theorem Split.gap (hc : isGap c = true) (h : Split (before ++ [c]) ls text) :
    Split before ls (c :: text) := by
  cases h with
  | nil hgap => exact .nil (List.forall_mem_cons.mpr ⟨hc, hgap⟩)
  | @cons _ gap rest l ls hgap hspells hline hrest =>
    rw [List.append_assoc] at hline
    rw [List.append_assoc before] at hrest
    exact Split.cons (List.forall_mem_cons.mpr ⟨hc, hgap⟩) hspells hline hrest

/-- A lexeme on a line; where it starts there is left open. -/
def onLine (line : Nat) (kind : LexemeKind) (text : List Char) : Lexeme :=
  ⟨kind, text, ⟨0, line, 0⟩⟩

theorem Split.lexeme {l : Lexeme} (hspells : l.kind.Spells l.text)
    (hline : l.start.line = 1 + before.count '\n') (h : Split (before ++ l.text) ls text) :
    Split before (l :: ls) (l.text ++ text) := by
  have hnone : ∀ c ∈ [], isGap c = true := by simp
  refine Split.cons hnone hspells ?_ ?_
  · rwa [List.append_nil]
  · rwa [List.append_nil]

/-- The open lexeme is the first one of the split. -/
theorem Split.close (hmode : mode.ReadsAt before place) (hstray : ∀ l ∈ mode.close, l.kind ≠ .stray)
    (h : Split (before ++ mode.pending) ls text) :
    Split before (mode.close ++ ls) (mode.pending ++ text) := by
  cases mode with
  | idle | comment => simpa [Mode.pending, Mode.close] using h
  | inside kind reversed start =>
    obtain ⟨hspells, hstart, -⟩ := hmode
    exact Split.lexeme (l := ⟨kind, reversed.reverse, start⟩)
      (hspells (hstray _ List.mem_cons_self)) hstart h

/-- **A text that is cut is split**, if no lexeme is stray. -/
theorem split_cutFrom (hmode : mode.ReadsAt before place)
    (hstray : ∀ l ∈ cutFrom mode place cs, l.kind ≠ .stray) :
    Split before (cutFrom mode place cs) (mode.pending ++ withoutComments mode.isComment cs) := by
  induction cs generalizing mode place before with
  | nil =>
    have hnil : Split (before ++ mode.pending) [] [] := .nil (by simp)
    simpa [cutFrom, withoutComments] using hnil.close hmode hstray
  | cons c cs ih =>
    cases hc : mode.accepts c with
    | true =>
      rw [cutFrom_accepts hc] at hstray ⊢
      rw [← Mode.pending_push hc]
      exact ih (hmode.push hc) hstray
    | false =>
      rw [cutFrom_opens hc] at hstray ⊢
      obtain ⟨hclose, hrest⟩ := List.forall_mem_append.mp hstray
      refine Split.close hmode hclose ?_
      rw [Mode.withoutComments_of_not_accepts hc]
      have hline := hmode.line
      generalize before ++ mode.pending = before at hline
      -- a gap and a comment fall away, and any other character opens a lexeme
      rw [Mode.opening] at hrest ⊢
      split_ifs at hrest ⊢ with hgap hhash
      · rw [withoutComments_cons (isGap_ne_hash hgap)]
        have hidle : Mode.idle.ReadsAt (before ++ [c]) (place.next c) :=
          Cursor.line_next_of_line hline c
        exact Split.gap hgap (ih hidle hrest)
      · subst hhash
        rw [withoutComments_hash]
        have hcomment : Mode.comment.ReadsAt before (place.next '#') :=
          Eq.trans (Cursor.line_next place '#') hline
        exact ih hcomment hrest
      · rw [withoutComments_cons hhash]
        have hinside : (Mode.inside (kindOf c) [c] place).ReadsAt before (place.next c) :=
          ⟨spells_kindOf, hline, Cursor.line_next_of_line hline c⟩
        exact ih hinside hrest

/-- **The lexemes of a text split it**, if no lexeme is stray. -/
theorem split_cut (text : List Char) (hstray : ∀ l ∈ cut text, l.kind ≠ .stray) :
    Split [] (cut text) (withoutComments false text) := by
  have hidle : Mode.idle.ReadsAt [] .start := rfl
  exact split_cutFrom hidle hstray

end Lexeme

end PlonkGates
