import PlonkGates.Equation.Parser
import PlonkGates.Proofs.Units

/-!
# Where lexemes stand

A place counts the characters, the line feeds and the characters since the last line feed that it
is behind (`Cursor.behind`). The lexemes that a text is cut into, stray ones among them, stand one
after the other in the text, each at its own place, with nothing but gaps around them
(`placed_cut`). Comments are blanked for this and not dropped, so that no place moves.
-/

namespace PlonkGates

namespace Cursor

/-! ## Places behind a text -/

/-- The place behind a text. -/
def behind (text : List Char) : Cursor :=
  ⟨text.length, 1 + text.count '\n', 1 + (Text.lastLine text).length⟩

theorem next_behind (text : List Char) (c : Char) :
    (behind text).next c = behind (text ++ [c]) := by
  by_cases hc : c = '\n'
  · simp [next, behind, Text.lastLine, hc, Nat.add_assoc]
  · simp [next, behind, Text.lastLine, hc, Nat.add_assoc]

theorem after_behind (text cs : List Char) : (behind text).after cs = behind (text ++ cs) := by
  induction cs generalizing text with
  | nil => rw [List.append_nil, after, List.foldl_nil]
  | cons c cs ih => rw [after_cons, next_behind, ih, List.append_assoc, List.singleton_append]

/-- All characters but line feeds take one column. -/
theorem next_eq_blank (place : Cursor) {c : Char} (h : c ≠ '\n') :
    place.next c = place.next ' ' := by
  rw [next, if_neg h, next, if_neg (by decide)]

end Cursor

/-! ## Blanked comments -/

/-- A text with blanks in place of its comments, which run up to the end of a line. The flag says
whether the text starts inside of a comment. -/
def blankComments : Bool → List Char → List Char
  | _, [] => []
  | inside, c :: cs =>
    if c = '\n' then c :: blankComments false cs
    else if inside || c == '#' then ' ' :: blankComments true cs
    else c :: blankComments false cs

section Comments

variable {c : Char} {inside : Bool} {cs : List Char}

theorem blankComments_newline : blankComments inside ('\n' :: cs) =
    '\n' :: blankComments false cs := by
  simp [blankComments]

theorem blankComments_inside (h : c ≠ '\n') :
    blankComments true (c :: cs) = ' ' :: blankComments true cs := by
  simp [blankComments, h]

theorem blankComments_hash : blankComments false ('#' :: cs) = ' ' :: blankComments true cs := by
  simp [blankComments]

theorem blankComments_cons (h : c ≠ '#') :
    blankComments false (c :: cs) = c :: blankComments false cs := by
  by_cases hline : c = '\n' <;> simp [blankComments, hline, h]

/-- A comment is blanked character by character. -/
theorem take_blankComments (n : Nat) (inside : Bool) (cs : List Char) :
    (blankComments inside cs).take n = blankComments inside (cs.take n) := by
  induction cs generalizing n inside with
  | nil => simp [blankComments]
  | cons c cs ih =>
    cases n with
    | zero => simp [blankComments]
    | succ n =>
      rw [List.take_succ_cons, blankComments, blankComments]
      split_ifs <;> rw [List.take_succ_cons, ih]

theorem after_blankComments (place : Cursor) (inside : Bool) (cs : List Char) :
    place.after (blankComments inside cs) = place.after cs := by
  induction cs generalizing place inside with
  | nil => simp [blankComments]
  | cons c cs ih =>
    rw [blankComments]
    split_ifs with hline hblank
    · rw [Cursor.after_cons, ih, Cursor.after_cons]
    · rw [Cursor.after_cons, ih, Cursor.after_cons, place.next_eq_blank hline]
    · rw [Cursor.after_cons, ih, Cursor.after_cons]

theorem behind_blankComments (inside : Bool) (cs : List Char) :
    Cursor.behind (blankComments inside cs) = .behind cs := by
  have hbehind (text : List Char) : Cursor.behind text = (Cursor.behind []).after text :=
    (Cursor.after_behind [] text).symm
  rw [hbehind, after_blankComments, ← hbehind]

end Comments

namespace Lexeme

/-! ## Lexemes in their places -/

/-- The text is made of these lexemes, in order and each at its place, with gaps around them;
`before` is the text up to here. Nothing is said about how a lexeme is spelled. -/
inductive Placed : List Char → List Lexeme → List Char → Prop where
  | nil {before gap : List Char} (hgap : ∀ c ∈ gap, isGap c = true) : Placed before [] gap
  | cons {before gap rest : List Char} {l : Lexeme} {ls : List Lexeme}
      (hgap : ∀ c ∈ gap, isGap c = true) (hstart : l.start = .behind (before ++ gap))
      (hrest : Placed (before ++ gap ++ l.text) ls rest) :
      Placed before (l :: ls) (gap ++ (l.text ++ rest))

namespace Placed

variable {before gap text : List Char} {ls : List Lexeme} {l : Lexeme} {c : Char}

theorem gap_cons (hc : isGap c = true) (h : Placed (before ++ [c]) ls text) :
    Placed before ls (c :: text) := by
  cases h with
  | nil hgap => exact .nil (List.forall_mem_cons.mpr ⟨hc, hgap⟩)
  | @cons _ gap rest l ls hgap hstart hrest =>
    rw [List.append_assoc] at hstart
    rw [List.append_assoc before] at hrest
    exact Placed.cons (List.forall_mem_cons.mpr ⟨hc, hgap⟩) hstart hrest

theorem lexeme_cons (hstart : l.start = .behind before) (h : Placed (before ++ l.text) ls text) :
    Placed before (l :: ls) (l.text ++ text) := by
  have hnone : ∀ c ∈ [], isGap c = true := by simp
  refine Placed.cons hnone ?_ ?_
  · rwa [List.append_nil]
  · rwa [List.append_nil]

/-- Gaps may follow the last lexeme. -/
theorem append_gap (h : Placed before ls text) (hgap : ∀ c ∈ gap, isGap c = true) :
    Placed before ls (text ++ gap) := by
  induction h with
  | nil hnil => exact .nil (List.forall_mem_append.mpr ⟨hnil, hgap⟩)
  | cons hcons hstart _ ih =>
    rw [List.append_assoc, List.append_assoc]
    exact .cons hcons hstart ih

/-- A further lexeme may follow the last one. -/
theorem append_lexeme (h : Placed before ls text) (hstart : l.start = .behind (before ++ text)) :
    Placed before (ls ++ [l]) (text ++ l.text) := by
  induction h with
  | @nil before gap hgap =>
    have hlast : Placed before [l] (gap ++ (l.text ++ [])) := .cons hgap hstart (.nil (by simp))
    rwa [List.append_nil] at hlast
  | cons hgap hfirst _ ih =>
    rw [List.append_assoc, List.append_assoc]
    refine .cons hgap hfirst (ih ?_)
    rw [hstart]
    simp only [List.append_assoc]

end Placed

end Lexeme

/-! ## Cutting -/

namespace Mode

variable {mode : Mode} {c : Char} {place : Cursor} {before cs : List Char}

/-- A text is read on at a place; the open lexeme starts behind `before`. -/
def StandsAt : Mode → List Char → Cursor → Prop
  | inside _ reversed start, before, place =>
    start = .behind before ∧ place = .behind (before ++ reversed.reverse)
  | _, before, place => place = .behind before

theorem StandsAt.place_eq (h : mode.StandsAt before place) :
    place = .behind (before ++ mode.pending) := by
  cases mode with
  | inside => exact h.2
  | idle | comment => simpa [pending, StandsAt] using h

/-- A character that is not accepted is not in a comment. -/
theorem blankComments_of_not_accepts (h : mode.accepts c = false) :
    blankComments mode.isComment (c :: cs) = blankComments false (c :: cs) := by
  cases mode with
  | comment =>
    have hline : c = '\n' := by simpa [accepts] using h
    rw [hline, blankComments_newline, blankComments_newline]
  | idle | inside => rfl

end Mode

namespace Lexeme

variable {before text : List Char} {ls : List Lexeme} {mode : Mode} {place : Cursor}
  {cs : List Char}

/-- The open lexeme is the first one. -/
theorem Placed.close (hmode : mode.StandsAt before place)
    (h : Placed (before ++ mode.pending) ls text) :
    Placed before (mode.close ++ ls) (mode.pending ++ text) := by
  cases mode with
  | idle | comment => simpa [Mode.pending, Mode.close] using h
  | inside kind reversed start =>
    exact Placed.lexeme_cons (l := ⟨kind, reversed.reverse, start⟩) hmode.1 h

/-- **A text is cut into lexemes at their places.** What is pending stands in front of the text that
is still to be read. -/
theorem placed_cutFrom (hmode : mode.StandsAt before place) :
    Placed before (cutFrom mode place cs) (mode.pending ++ blankComments mode.isComment cs) := by
  induction cs generalizing mode place before with
  | nil =>
    have hnil : Placed (before ++ mode.pending) [] [] := .nil (by simp)
    simpa [cutFrom, blankComments] using hnil.close hmode
  | cons c cs ih =>
    have hnext {head : List Char} (h : place = .behind head) :
        place.next c = .behind (head ++ [c]) := by rw [h, Cursor.next_behind]
    -- a character of a comment takes the place of a blank
    have hblank {head : List Char} (h : place = .behind head) (hc : c ≠ '\n') :
        place.next c = .behind (head ++ [' ']) := by
      rw [h, Cursor.next_eq_blank _ hc, Cursor.next_behind]
    cases hc : mode.accepts c with
    | true =>
      rw [cutFrom_accepts hc]
      cases mode with
      | idle => cases hc
      | comment =>
        have hline : c ≠ '\n' := by simpa [Mode.accepts] using hc
        have hcomment : Mode.comment.StandsAt (before ++ [' ']) (place.next c) :=
          hblank hmode hline
        show Placed before _ (blankComments true (c :: cs))
        rw [blankComments_inside hline]
        exact Placed.gap_cons rfl (ih hcomment)
      | inside kind reversed start =>
        have hinside : (Mode.inside kind (c :: reversed) start).StandsAt before (place.next c) := by
          refine ⟨hmode.1, ?_⟩
          rw [hnext hmode.2, List.reverse_cons, List.append_assoc]
        have hpushed := ih hinside
        simp only [Mode.pending, Mode.isComment, List.reverse_cons, List.append_assoc] at hpushed ⊢
        rwa [blankComments_cons (LexemeKind.ne_hash_of_continues hc)]
    | false =>
      rw [cutFrom_opens hc, Mode.blankComments_of_not_accepts hc]
      refine Placed.close hmode ?_
      have hplace := hmode.place_eq
      generalize before ++ mode.pending = before at hplace
      -- a gap and a comment fall away, and any other character opens a lexeme
      rw [Mode.opening]
      split_ifs with hgap hhash
      · rw [blankComments_cons (isGap_ne_hash hgap)]
        have hidle : Mode.idle.StandsAt (before ++ [c]) (place.next c) := hnext hplace
        exact Placed.gap_cons hgap (ih hidle)
      · subst hhash
        rw [blankComments_hash]
        have hcomment : Mode.comment.StandsAt (before ++ [' ']) (place.next '#') :=
          hblank hplace (by decide)
        exact Placed.gap_cons rfl (ih hcomment)
      · rw [blankComments_cons hhash]
        have hinside : (Mode.inside (kindOf c) [c] place).StandsAt before (place.next c) :=
          ⟨hplace, hnext hplace⟩
        exact ih hinside

/-- **The lexemes of a text stand at their places in it.** -/
theorem placed_cut (text : List Char) : Placed [] (cut text) (blankComments false text) := by
  have hidle : Mode.idle.StandsAt [] .start := rfl
  exact placed_cutFrom hidle

/-! ## How lexemes are spelled -/

/-- A lexeme as a text is cut into: it is spelled as its kind says, and a zero is not told apart
from digits; or it is a single character that is no gap, no comment and no lexeme. -/
inductive IsCut : Lexeme → Prop where
  | spelled {l : Lexeme} (hkind : l.kind ≠ .zero) (hspells : l.kind.Spells l.text) : IsCut l
  | stray {l : Lexeme} {c : Char} (hkind : l.kind = .stray) (htext : l.text = [c])
      (hgap : isGap c = false) (hhash : c ≠ '#') (hstray : kindOf c = .stray) : IsCut l

theorem kindOf_ne_zero (c : Char) : kindOf c ≠ .zero := by
  rw [kindOf]
  split_ifs <;> decide

theorem isCut_opening (c : Char) (place : Cursor) :
    ∀ l ∈ (Mode.opening c place).close, IsCut l := by
  rw [Mode.opening]
  split_ifs with hgap hhash
  · simp [Mode.close]
  · simp [Mode.close]
  · refine List.forall_mem_singleton.mpr ?_
    by_cases hstray : kindOf c = .stray
    · exact .stray hstray rfl (Bool.eq_false_iff.mpr hgap) hhash hstray
    · exact .spelled (kindOf_ne_zero c) (spells_kindOf hstray)

theorem isCut_push {c : Char} (h : ∀ l ∈ mode.close, IsCut l) (hc : mode.accepts c = true) :
    ∀ l ∈ (mode.push c).close, IsCut l := by
  cases mode with
  | idle => cases hc
  | comment => exact h
  | inside kind reversed start =>
    refine List.forall_mem_singleton.mpr ?_
    rw [List.reverse_cons]
    cases List.forall_mem_singleton.mp h with
    | spelled hkind hspells => exact .spelled hkind (hspells.append hc)
    | stray hkind =>
      obtain rfl : kind = .stray := hkind
      cases hc

theorem isCut_of_mem_cutFrom (hmode : ∀ l ∈ mode.close, IsCut l) :
    ∀ l ∈ cutFrom mode place cs, IsCut l := by
  induction cs generalizing mode place with
  | nil => exact hmode
  | cons c cs ih =>
    cases hc : mode.accepts c with
    | true =>
      rw [cutFrom_accepts hc]
      exact ih (isCut_push hmode hc)
    | false =>
      rw [cutFrom_opens hc]
      exact List.forall_mem_append.mpr ⟨hmode, ih (isCut_opening c place)⟩

/-- **Every lexeme of a text is spelled as its kind says, or is a stray character.** -/
theorem isCut_of_mem_cut (text : List Char) : ∀ l ∈ cut text, IsCut l := by
  have hidle : ∀ l ∈ Mode.idle.close, IsCut l := by simp [Mode.close]
  exact isCut_of_mem_cutFrom hidle

end Lexeme

end PlonkGates
