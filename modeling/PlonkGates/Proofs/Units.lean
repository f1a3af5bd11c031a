import PlonkGates.Proofs.Cutting
import PlonkGates.Proofs.Stages

/-!
# All splits of a program agree

A text may be split into lexemes in many ways, but a reader accepts hardly any of them: after a
word, digits or a zero, no stage allows what could be a further piece of it. The splits that are
left differ in how line feeds are grouped, and `Lexeme.units` forgets this. So the units of a split
that leads somewhere are those of the lexemes that the text is cut into (`units_cut_eq`).
-/

namespace PlonkGates

/-- The kind under which a lexeme is cut: the zero of a right side is a run of digits. -/
def LexemeKind.asCut : LexemeKind → LexemeKind
  | zero => digits
  | kind => kind

theorem LexemeKind.asCut_eq_self {k : LexemeKind} (h : k ≠ .zero) : k.asCut = k := by
  cases k <;> first | rfl | exact absurd rfl h

theorem LexemeKind.asCut_eq_digits {k : LexemeKind} (h : k.asCut = .digits) :
    k = .digits ∨ k = .zero := by
  cases k <;> simp_all [asCut]

theorem LexemeKind.eq_of_asCut {k k' : LexemeKind} (h : k.asCut = k') (hk' : k' ≠ .digits) :
    k = k' := by
  cases k <;> simp_all [asCut]

theorem LexemeKind.eq_newlines_of_continues {k : LexemeKind} (h : k.continues '\n' = true) :
    k = .newlines := by
  cases k <;> first | rfl | exact absurd h (by decide)

namespace Lexeme

def asCut (l : Lexeme) : Lexeme := { l with kind := l.kind.asCut }

theorem asCut_eq_self {l : Lexeme} (h : l.kind ≠ .zero) : l.asCut = l := by
  rw [asCut, LexemeKind.asCut_eq_self h]

/-- A line feed, wherever it stands. -/
def lineFeed : Lexeme := ⟨.newlines, ['\n'], .start⟩

/-- A lexeme that knows only the line that it starts on. -/
def bare (l : Lexeme) : Lexeme := { l with start := ⟨0, l.start.line, 0⟩ }

/-- A lexeme with its line alone, or line feeds one by one. -/
def units (l : Lexeme) : List Lexeme :=
  if l.kind = .newlines then List.replicate l.text.length lineFeed else [l.bare]

theorem units_newlines {l : Lexeme} (h : l.kind = .newlines) :
    l.units = List.replicate l.text.length lineFeed := if_pos h

theorem units_other {l : Lexeme} (h : l.kind ≠ .newlines) :
    l.units = [l.bare] := if_neg h

/-! ## Closing what is open -/

variable {mode : Mode} {place : Cursor} {cs : List Char}

theorem cutFrom_close (h : ∀ c ∈ cs.head?, mode.accepts c = false) :
    cutFrom mode place cs = mode.close ++ cutFrom .idle place cs := by
  cases cs with
  | nil => simp [cutFrom, Mode.close]
  | cons c cs =>
    have hidle : Mode.idle.accepts c = false := rfl
    rw [cutFrom_opens (h c rfl), cutFrom_opens hidle]
    rfl

/-- Line feeds that are open count one by one, whatever follows them. -/
theorem units_cutFrom_newlines (reversed : List Char) (start : Cursor) :
    (cutFrom (.inside .newlines reversed start) place cs).flatMap units =
      List.replicate reversed.length lineFeed ++ (cutFrom .idle place cs).flatMap units := by
  induction cs generalizing reversed start place with
  | nil => simp [cutFrom, Mode.close, units]
  | cons c cs ih =>
    by_cases hc : c = '\n'
    · subst hc
      have haccepts : (Mode.inside .newlines reversed start).accepts '\n' = true := rfl
      have hidle : cutFrom .idle place ('\n' :: cs) =
          cutFrom (.inside .newlines ['\n'] place) (place.next '\n') cs := rfl
      rw [cutFrom_accepts haccepts, Mode.push, ih, hidle, ih, ← List.append_assoc,
        List.length_cons, List.replicate_succ']
      rfl
    · have hnot : ∀ d ∈ (c :: cs).head?,
          (Mode.inside .newlines reversed start).accepts d = false := by
        simpa [Mode.accepts, LexemeKind.continues] using hc
      rw [cutFrom_close hnot, List.flatMap_append]
      simp [Mode.close, units]

/-- An open lexeme is complete if it cannot go on, and line feeds are complete at any time. -/
theorem units_cutFrom_close (h : ∀ c ∈ cs.head?, mode.accepts c = true →
      ∃ reversed start, mode = .inside .newlines reversed start) :
    (cutFrom mode place cs).flatMap units =
      mode.close.flatMap units ++ (cutFrom .idle place cs).flatMap units := by
  by_cases hline : ∃ reversed start, mode = .inside .newlines reversed start
  · obtain ⟨reversed, start, rfl⟩ := hline
    rw [units_cutFrom_newlines]
    simp [Mode.close, units]
  · rw [cutFrom_close fun c hc => Bool.eq_false_iff.mpr fun haccepts => hline (h c hc haccepts),
      List.flatMap_append]

end Lexeme

/-! ## Comments -/

/-- Modes with the same characters on the same line; no comment is open in the second one. -/
inductive Mode.Alike : Mode → Mode → Prop where
  | idle : Alike .idle .idle
  | comment : Alike .comment .idle
  | inside {kind : LexemeKind} {reversed : List Char} {start start' : Cursor}
      (hline : start.line = start'.line) :
      Alike (.inside kind reversed start) (.inside kind reversed start')

namespace Mode.Alike

variable {mode mode' : Mode} {c : Char} {place place' : Cursor}

theorem units_close (h : Alike mode mode') :
    mode.close.flatMap Lexeme.units = mode'.close.flatMap Lexeme.units := by
  cases h with
  | idle | comment => rfl
  | inside hline => simp [close, Lexeme.units, Lexeme.bare, hline]

theorem not_accepts (h : Alike mode mode') (hc : mode.accepts c = false) :
    mode'.accepts c = false := by
  cases h with
  | idle | comment => rfl
  | inside => exact hc

/-- What is not the mark of a comment opens the same in two places on one line. -/
theorem opening (hline : place.line = place'.line) (hc : c ≠ '#') :
    Alike (Mode.opening c place) (Mode.opening c place') ∧
      (Mode.opening c place).isComment = false := by
  rw [Mode.opening, Mode.opening]
  split_ifs
  · exact ⟨.idle, rfl⟩
  · exact ⟨.inside hline, rfl⟩

end Mode.Alike

namespace Lexeme

/-- After a comment there is a line feed, or nothing. -/
theorem head?_withoutComments (cs : List Char) :
    ∀ c ∈ (withoutComments true cs).head?, c = '\n' := by
  induction cs with
  | nil => simp [withoutComments]
  | cons c cs ih =>
    by_cases hc : c = '\n'
    · subst hc
      simp [withoutComments_newline]
    · rw [withoutComments_inside hc]
      exact ih

/-- Only open line feeds go on with a line feed. -/
theorem eq_newlines_of_accepts {mode : Mode} (h : mode.accepts '\n' = true) :
    ∃ reversed start, mode = .inside .newlines reversed start := by
  cases mode with
  | idle | comment => exact absurd h (by decide)
  | inside kind reversed start =>
    rw [LexemeKind.eq_newlines_of_continues h]
    exact ⟨reversed, start, rfl⟩

/-- **Comments do not change the units of a text.** They may part line feeds, but units count these
one by one. -/
theorem units_withoutComments {mode mode' : Mode} {place place' : Cursor} {cs : List Char}
    (hmode : mode.Alike mode') (hline : place.line = place'.line) :
    (cutFrom mode place cs).flatMap units =
      (cutFrom mode' place' (withoutComments mode.isComment cs)).flatMap units := by
  induction cs generalizing mode mode' place place' with
  | nil => exact hmode.units_close
  | cons c cs ih =>
    have hnext : (place.next c).line = (place'.next c).line := by
      rw [Cursor.line_next, Cursor.line_next, hline]
    cases hc : mode.accepts c with
    | true =>
      rw [cutFrom_accepts hc]
      cases hmode with
      | idle => cases hc
      | comment =>
        have hstay : c ≠ '\n' := by simpa [Mode.accepts] using hc
        have hplace : (place.next c).line = place'.line := by
          rw [Cursor.line_next, hline, List.count_singleton, if_neg (by simpa using hstay)]
          rfl
        rw [Mode.isComment, withoutComments_inside hstay]
        exact ih .comment hplace
      | @inside kind reversed start start' hstart =>
        have haccepts : (Mode.inside kind reversed start').accepts c = true := hc
        rw [Mode.isComment_inside, withoutComments_cons (LexemeKind.ne_hash_of_continues hc),
          cutFrom_accepts haccepts]
        exact ih (.inside hstart) hnext
    | false =>
      rw [cutFrom_opens hc, List.flatMap_append, hmode.units_close,
        Mode.withoutComments_of_not_accepts hc]
      by_cases hhash : c = '#'
      · -- without the comment its line feed follows at once, and may go on with open line feeds
        subst hhash
        have hclose : ∀ d ∈ (withoutComments true cs).head?, mode'.accepts d = true →
            ∃ reversed start, mode' = .inside .newlines reversed start := by
          intro d hd haccepts
          rw [head?_withoutComments cs d hd] at haccepts
          exact eq_newlines_of_accepts haccepts
        have hrest := ih .comment (Eq.trans (Cursor.line_next place '#') hline)
        rw [withoutComments_hash, units_cutFrom_close hclose]
        exact congrArg (mode'.close.flatMap units ++ ·) hrest
      · obtain ⟨halike, hcomment⟩ := Mode.Alike.opening hline hhash
        rw [withoutComments_cons hhash, cutFrom_opens (hmode.not_accepts hc), List.flatMap_append,
          ih halike hnext, hcomment]

/-! ## Lexemes of a split -/

section Split

variable {place start : Cursor} {kind : LexemeKind} {reversed gap cs rest text : List Char}
  {c : Char} {l : Lexeme}

theorem cutFrom_gap (h : ∀ c ∈ gap, isGap c = true) :
    cutFrom .idle place (gap ++ rest) = cutFrom .idle (place.after gap) rest := by
  induction gap generalizing place with
  | nil => rfl
  | cons c gap ih =>
    obtain ⟨hc, hgap⟩ := List.forall_mem_cons.mp h
    have hidle : Mode.idle.accepts c = false := rfl
    rw [Cursor.after_cons, ← ih hgap, List.cons_append, cutFrom_opens hidle, Mode.opening,
      if_pos hc]
    rfl

theorem cutFrom_inside (h : ∀ c ∈ cs, kind.continues c = true) :
    cutFrom (.inside kind reversed start) place (cs ++ rest) =
      cutFrom (.inside kind (cs.reverse ++ reversed) start) (place.after cs) rest := by
  induction cs generalizing reversed place with
  | nil => rfl
  | cons c cs ih =>
    obtain ⟨hc, hcs⟩ := List.forall_mem_cons.mp h
    have haccepts : (Mode.inside kind reversed start).accepts c = true := hc
    rw [List.cons_append, cutFrom_accepts haccepts, Mode.push, ih hcs, Cursor.after_cons]
    simp

theorem kindOf_digit (h : Text.isAsciiDigit c = true) : kindOf c = .digits := by
  have hne : ∀ d, Text.isAsciiDigit d = false → c ≠ d := by
    rintro d hd rfl
    simp [h] at hd
  simp [kindOf, h, hne '+' rfl, hne '-' rfl, hne '\n' rfl, hne ';' rfl, hne '=' rfl, hne '*' rfl]

theorem kindOf_letter (h : isLetter c = true) : kindOf c = .word := by
  have hne : ∀ d, isLetter d = false → c ≠ d := by
    rintro d hd rfl
    simp [h] at hd
  have hdigit : Text.isAsciiDigit c = false := by
    by_cases hc : c = '_'
    · subst hc
      rfl
    · simp only [isLetter, Text.isAsciiDigit, Bool.or_eq_true, Bool.and_eq_true, decide_eq_true_eq,
        beq_iff_eq, hc, or_false, Bool.and_eq_false_iff, decide_eq_false_iff_not] at h ⊢
      omega
  simp [kindOf, h, hdigit, hne '+' rfl, hne '-' rfl, hne '\n' rfl, hne ';' rfl, hne '=' rfl,
    hne '*' rfl]

/-- A character that starts lexemes of a kind. -/
structure Opens (kind : LexemeKind) (c : Char) : Prop where
  not_gap : isGap c = false
  not_hash : c ≠ '#'
  kind_eq : kindOf c = kind.asCut

theorem cutFrom_opens_kind (h : Opens kind c) : cutFrom .idle place (c :: cs) =
    cutFrom (.inside kind.asCut [c] place) (place.next c) cs := by
  have hidle : Mode.idle.accepts c = false := rfl
  rw [cutFrom_opens hidle, Mode.opening, if_neg (by simp [h.not_gap]), if_neg h.not_hash, h.kind_eq]
  rfl

theorem opens_digit (h : Text.isAsciiDigit c = true) : Opens .digits c :=
  ⟨LexemeKind.not_gap_of_continues (show LexemeKind.digits.continues c = true from h),
    LexemeKind.ne_hash_of_continues (show LexemeKind.digits.continues c = true from h),
    kindOf_digit h⟩

theorem opens_letter (h : isLetter c = true) : Opens .word c := by
  have hword : LexemeKind.word.continues c = true := by
    simp [LexemeKind.continues, isWordChar, h]
  exact ⟨LexemeKind.not_gap_of_continues hword, LexemeKind.ne_hash_of_continues hword,
    kindOf_letter h⟩

/-- The first character of a lexeme opens it, and it goes on with the others. -/
theorem opens_of_spells (h : kind.Spells text) :
    ∃ c cs, text = c :: cs ∧ Opens kind c ∧ ∀ d ∈ cs, kind.asCut.continues d = true := by
  cases kind with
  | sign => rcases h with rfl | rfl <;> exact ⟨_, [], rfl, ⟨rfl, by decide, rfl⟩, by simp⟩
  | semicolon | equals | star | zero =>
    obtain rfl := h
    exact ⟨_, [], rfl, ⟨rfl, by decide, rfl⟩, by simp⟩
  | digits =>
    obtain ⟨c, cs, rfl⟩ := List.exists_cons_of_ne_nil h.1
    obtain ⟨hc, hcs⟩ := List.forall_mem_cons.mp h.2
    exact ⟨c, cs, rfl, opens_digit hc, hcs⟩
  | newlines =>
    obtain ⟨c, cs, rfl⟩ := List.exists_cons_of_ne_nil h.1
    obtain ⟨rfl, hcs⟩ := List.forall_mem_cons.mp h.2
    refine ⟨'\n', cs, rfl, ⟨rfl, by decide, rfl⟩, fun d hd => ?_⟩
    rw [hcs d hd]
    rfl
  | word =>
    obtain ⟨c, cs, rfl, hc, hcs⟩ := h
    exact ⟨c, cs, rfl, opens_letter hc, hcs⟩
  | stray => exact h.elim

theorem Split.not_hash {before text : List Char} {ls : List Lexeme} (h : Split before ls text) :
    '#' ∉ text := by
  have hgapHash : ∀ {gap : List Char}, (∀ c ∈ gap, isGap c = true) → '#' ∉ gap := fun hgap hmem =>
    isGap_ne_hash (hgap _ hmem) rfl
  induction h with
  | nil hgap => exact hgapHash hgap
  | @cons _ gap rest l ls hgap hspells _ _ ih =>
    obtain ⟨c, cs, htext, hopens, hcs⟩ := opens_of_spells hspells
    have hlexeme : '#' ∉ l.text := by
      rw [htext, List.mem_cons]
      rintro (hc | hmem)
      · exact hopens.not_hash hc.symm
      · exact LexemeKind.ne_hash_of_continues (hcs _ hmem) rfl
    simp [hgapHash hgap, hlexeme, ih]

/-- A text that is split has no comments. -/
theorem Split.withoutComments_eq {before text : List Char} {ls : List Lexeme}
    (h : Split before ls text) : withoutComments false text = text := by
  have hhash := h.not_hash
  clear h
  induction text with
  | nil => rfl
  | cons c cs ih =>
    rw [List.mem_cons, not_or] at hhash
    rw [withoutComments_cons (Ne.symm hhash.1), ih hhash.2]

/-- A lexeme at the front of a text is cut off, if the text does not go on with it. -/
theorem units_cutFrom_lexeme (hspells : l.kind.Spells l.text) (hline : place.line = l.start.line)
    (hrest : ∀ c ∈ rest.head?, l.kind.asCut.continues c = true → l.kind = .newlines) :
    (cutFrom .idle place (l.text ++ rest)).flatMap units =
      l.asCut.units ++ (cutFrom .idle (place.after l.text) rest).flatMap units := by
  obtain ⟨c, cs, htext, hopens, hcs⟩ := opens_of_spells hspells
  have hclose : ∀ d ∈ rest.head?,
      (Mode.inside l.kind.asCut (cs.reverse ++ [c]) place).accepts d = true →
      ∃ reversed start, Mode.inside l.kind.asCut (cs.reverse ++ [c]) place =
        .inside .newlines reversed start := by
    intro d hd haccepts
    rw [hrest d hd haccepts]
    exact ⟨_, _, rfl⟩
  have hunits : ((Mode.inside l.kind.asCut (cs.reverse ++ [c]) place).close).flatMap units =
      l.asCut.units := by
    simp [Mode.close, units, bare, asCut, htext, hline]
  rw [htext, List.cons_append, cutFrom_opens_kind hopens, cutFrom_inside hcs,
    units_cutFrom_close hclose, hunits, Cursor.after_cons]

end Split

end Lexeme

/-! ## What may follow a lexeme -/

namespace Stage

variable {stage middle next : Stage} {k k' : LexemeKind} {c : Char}

theorem next_after_word (h : stage.next .word = some middle) :
    middle.next .word = none ∧ middle.next .digits = none ∧ middle.next .zero = none := by
  cases stage <;> cases h <;> exact ⟨rfl, rfl, rfl⟩

theorem next_after_digits (hk : k = .digits ∨ k = .zero) (h : stage.next k = some middle) :
    middle.next .digits = none ∧ middle.next .zero = none := by
  rcases hk with rfl | rfl <;> cases stage <;> cases h <;> exact ⟨rfl, rfl⟩

/-- No stage allows a lexeme that could be a further piece of the lexeme before it, apart from line
feeds. -/
theorem no_piece (hk : stage.next k = some middle) (hk' : middle.next k' = some next)
    (hopens : Lexeme.Opens k' c) (hc : k.asCut.continues c = true) : k = .newlines := by
  have hallowed : ∀ {k''}, k' = k'' → middle.next k'' ≠ none := by
    rintro _ rfl hnone
    rw [hk'] at hnone
    cases hnone
  have hdigit (h : Text.isAsciiDigit c = true) : k' = .digits ∨ k' = .zero := by
    have hkind := hopens.kind_eq
    rw [Lexeme.kindOf_digit h] at hkind
    exact LexemeKind.asCut_eq_digits hkind.symm
  have hletter (h : Lexeme.isLetter c = true) : k' = .word := by
    have hkind := hopens.kind_eq
    rw [Lexeme.kindOf_letter h] at hkind
    exact LexemeKind.eq_of_asCut hkind.symm (by decide)
  cases k with
  | newlines => rfl
  | word =>
    obtain ⟨hword, hdigits, hzero⟩ := next_after_word hk
    rcases Bool.or_eq_true_iff.mp hc with h | h
    · exact absurd hword (hallowed (hletter h))
    · rcases hdigit h with h | h
      · exact absurd hdigits (hallowed h)
      · exact absurd hzero (hallowed h)
  | digits | zero =>
    obtain ⟨hdigits, hzero⟩ := next_after_digits (by simp) hk
    rcases hdigit hc with h | h
    · exact absurd hdigits (hallowed h)
    · exact absurd hzero (hallowed h)
  | sign | semicolon | equals | star | stray => cases hc

end Stage

namespace Lexeme

open Stage (Leads)

/-- What is left of a text after a lexeme does not go on with it, if a reader goes on after it. -/
theorem Split.not_continues {before text : List Char} {ls : List Lexeme} {stage middle last : Stage}
    {k : LexemeKind} (h : Split before ls text) (hk : stage.next k = some middle)
    (hls : Leads middle ls last) :
    ∀ c ∈ text.head?, k.asCut.continues c = true → k = .newlines := by
  have hgapFirst : ∀ {gap more : List Char}, (∀ c ∈ gap, isGap c = true) → gap ≠ [] →
      ∀ c ∈ (gap ++ more).head?, k.asCut.continues c = true → k = .newlines := by
    intro gap more hgap hne c hc hcontinues
    obtain ⟨d, gap, rfl⟩ := List.exists_cons_of_ne_nil hne
    obtain rfl : d = c := by simpa using hc
    have hd := hgap d List.mem_cons_self
    rw [LexemeKind.not_gap_of_continues hcontinues] at hd
    cases hd
  cases h with
  | nil hgap =>
    by_cases hne : text = []
    · simp [hne]
    · rw [← List.append_nil text]
      exact hgapFirst hgap hne
  | @cons _ gap rest l ls hgap hspells _ _ =>
    by_cases hne : gap = []
    · intro c hc hcontinues
      obtain ⟨d, ds, htext, hopens, -⟩ := opens_of_spells hspells
      obtain rfl : d = c := by simpa [hne, htext] using hc
      cases hls with
      | cons hl _ => exact Stage.no_piece hk hl hopens hcontinues
    · exact hgapFirst hgap hne

/-- **The units of a text are those of any of its splits that a reader accepts.** -/
theorem units_cutFrom_split {before text : List Char} {ls : List Lexeme} {stage last : Stage}
    {place : Cursor} (h : Split before ls text) (hls : Leads stage ls last)
    (hplace : place.line = 1 + before.count '\n') :
    (cutFrom .idle place text).flatMap units = (ls.map asCut).flatMap units := by
  induction h generalizing stage place with
  | @nil before gap hgap =>
    rw [← List.append_nil gap, cutFrom_gap hgap]
    rfl
  | @cons before gap rest l ls hgap hspells hline hrest ih =>
    cases hls with
    | cons hl hls =>
      have hgapLine := Cursor.line_after_of_line hplace gap
      have hrestLine := Cursor.line_after_of_line hgapLine l.text
      rw [cutFrom_gap hgap, units_cutFrom_lexeme hspells (hgapLine.trans hline.symm)
        (hrest.not_continues hl hls), ih hls hrestLine]
      rfl

/-- **All splits of a program agree with the lexemes that it is cut into, up to line feeds.** -/
theorem units_cut_eq {text : List Char} {ls : List Lexeme} {last : Stage}
    (h : Split [] ls (withoutComments false text)) (hls : Leads .start ls last) :
    (cut text).flatMap units = (ls.map asCut).flatMap units := by
  have hcomments : (cut text).flatMap units = (cut (withoutComments false text)).flatMap units :=
    units_withoutComments .idle rfl
  rw [hcomments]
  exact units_cutFrom_split h hls rfl

end Lexeme

end PlonkGates
