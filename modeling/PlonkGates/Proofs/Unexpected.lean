import PlonkGates.Proofs.Parsing
import PlonkGates.Proofs.Places

/-!
# Errors point at the first thing that cannot be read on

If a text is not read to its end, the tokens read so far begin some program, and no program goes on
from them with what the error blames (`parse_error_points`). The error tells the line and the column
of what it blames, or of the last token if the text ends too early.

The stages of the reader stand for all beginnings of programs: from each stage a program can be
completed (`Stage.leads_completion`), and tokens lead to one stage only. So a kind of lexeme that a
stage does not allow can follow none of the tokens that lead there. What is read is followed from
token to token by `Reading.Reached`.
-/

namespace PlonkGates

open Stage (Leads)
open Grammar (Program)

/-! ## Beginnings of programs -/

namespace Stage

/-- Lexemes that complete a program. -/
def completion : Stage → List Lexeme
  | start | complete => []
  | rightSign => [.onLine 1 .word ['x']]
  | equals => [.onLine 1 .zero ['0']]
  | factor | product => [.onLine 1 .equals ['='], .onLine 1 .zero ['0']]
  | sign | coefficient | coefficientStar | factorStar =>
    [.onLine 1 .word ['x'], .onLine 1 .equals ['='], .onLine 1 .zero ['0']]

/-- No stage is a dead end. -/
theorem leads_completion (stage : Stage) :
    ∃ last, Leads stage stage.completion last ∧ last.isFinal = true := by
  cases stage with
  | start | complete => exact ⟨_, .nil _, rfl⟩
  | rightSign | equals => exact ⟨.complete, .single rfl, rfl⟩
  | factor | product => exact ⟨.complete, .cons rfl (.single rfl), rfl⟩
  | sign | coefficient | coefficientStar | factorStar =>
    exact ⟨.complete, .cons rfl (.cons rfl (.single rfl)), rfl⟩

theorem spells_completion (stage : Stage) : ∀ l ∈ stage.completion, l.kind.Spells l.text := by
  have hword : LexemeKind.word.Spells ['x'] := ⟨'x', [], rfl, rfl, by simp⟩
  have hequals : LexemeKind.equals.Spells ['='] := rfl
  have hzero : LexemeKind.zero.Spells ['0'] := rfl
  cases stage <;> simp [completion, Lexeme.onLine, hword, hequals, hzero]

/-- There is one stage that lexemes lead to. -/
theorem Leads.append_iff {stage middle last : Stage} {ls rest : List Lexeme}
    (h : Leads stage ls middle) : Leads stage (ls ++ rest) last ↔ Leads middle rest last := by
  induction h with
  | nil => rfl
  | cons hl _ ih =>
    rw [List.cons_append, Leads.cons_iff, ← ih]
    simp [hl]

/-- Where a lexeme is not allowed, its text is allowed under no other kind. Only the zero of a right
side is spelled like other lexemes, and there it is cut off from them. -/
theorem next_eq_none_of_spells {stage : Stage} {kind : LexemeKind} {l : Lexeme}
    (hl : l.kind.Spells l.text) (hcut : l.kind ≠ .zero) (hzero : ¬ l.SplitsAt stage)
    (hnext : stage.next l.kind = none) (h : kind.Spells l.text) : stage.next kind = none := by
  obtain ⟨c, cs, htext, hopens, -⟩ := Lexeme.opens_of_spells hl
  obtain ⟨d, ds, htext', hopens', -⟩ := Lexeme.opens_of_spells h
  obtain ⟨rfl, -⟩ := List.cons.inj (htext.symm.trans htext')
  have hkinds : kind.asCut = l.kind := by
    rw [← hopens'.kind_eq, hopens.kind_eq, LexemeKind.asCut_eq_self hcut]
  by_cases hkind : kind = .zero
  · subst hkind
    cases stage with
    | equals => exact absurd ⟨rfl, hkinds.symm, [], h⟩ hzero
    | _ => rfl
  · rw [← LexemeKind.asCut_eq_self hkind, hkinds, hnext]

end Stage

namespace Grammar

variable {ts : List Lexeme} {stage : Stage}

/-- Tokens that lead to a stage begin a program. -/
theorem exists_program (h : Leads .start ts stage) (hspells : ∀ t ∈ ts, t.kind.Spells t.text) :
    ∃ more es, (∀ l ∈ ts ++ more, l.kind.Spells l.text) ∧ Program (ts ++ more) es := by
  obtain ⟨last, hlast, hfinal⟩ := stage.leads_completion
  refine ⟨stage.completion, _, ?_, program_iff.mpr ⟨⟨last, h.append hlast, hfinal⟩, rfl⟩⟩
  exact List.forall_mem_append.mpr ⟨hspells, stage.spells_completion⟩

theorem not_program_of_next {l : Lexeme} (h : Leads .start ts stage) (hl : stage.next l.kind = none)
    (more : List Lexeme) (es : List Equation) : ¬ Program (ts ++ l :: more) es := by
  intro hprogram
  obtain ⟨⟨last, hleads, -⟩, -⟩ := program_iff.mp hprogram
  obtain ⟨next, hnext, -⟩ := Leads.cons_iff.mp (h.append_iff.mp hleads)
  rw [hl] at hnext
  cases hnext

theorem not_program_of_isFinal (h : Leads .start ts stage) (hfinal : stage.isFinal = false)
    (es : List Equation) : ¬ Program ts es := by
  intro hprogram
  obtain ⟨⟨last, hleads, hlast⟩, -⟩ := program_iff.mp hprogram
  rw [← List.append_nil ts] at hleads
  cases h.append_iff.mp hleads
  rw [hfinal] at hlast
  cases hlast

end Grammar

/-! ## What an error blames -/

namespace Lexeme

/-- A text begins with lexemes at their places, and a piece of it comes next. -/
def PlacedBefore (ts : List Lexeme) (piece : List Char) (place : Cursor) (text : List Char) :
    Prop :=
  ∃ head rest, text = head ++ (piece ++ rest) ∧ Placed [] ts head ∧ place = .behind head

/-- Each lexeme stands behind the text before it. -/
theorem Placed.exists_of_mem {before text : List Char} {ls : List Lexeme} {l : Lexeme}
    (h : Placed before ls text) (hl : l ∈ ls) :
    ∃ head rest, text = head ++ rest ∧ l.start = .behind (before ++ head) := by
  induction h with
  | nil => cases hl
  | @cons before gap rest first ls hgap hstart _ ih =>
    rcases List.mem_cons.mp hl with rfl | hmem
    · exact ⟨gap, _, rfl, hstart⟩
    · obtain ⟨head, tail, htext, hplace⟩ := ih hmem
      refine ⟨gap ++ (first.text ++ head), tail, ?_, ?_⟩
      · rw [htext]
        simp only [List.append_assoc]
      · rw [hplace]
        simp only [List.append_assoc]

theorem asUnexpected_of_spells {l : Lexeme} (h : l.kind.Spells l.text) :
    l.asUnexpected = .token (String.ofList l.text) := by
  obtain ⟨kind, text, start⟩ := l
  cases kind <;> first | rfl | exact h.elim

/-- No lexeme starts with a stray character. -/
theorem not_spells_of_stray {c : Char} (h : kindOf c = .stray) (kind : LexemeKind)
    (cs : List Char) : ¬ kind.Spells (c :: cs) := by
  intro hspells
  obtain ⟨d, ds, htext, hopens, -⟩ := opens_of_spells hspells
  obtain ⟨rfl, -⟩ := List.cons.inj htext
  have hkind : kind = .stray :=
    LexemeKind.eq_of_asCut (hopens.kind_eq.symm.trans h) (by decide)
  rw [hkind] at hspells
  exact hspells

end Lexeme

namespace Reading

open Lexeme (Placed PlacedBefore IsCut)

/-- Why a text that begins with these tokens is not read on. A token that is blamed is a lexeme, but
no program goes on with a lexeme of this text; a character that is blamed starts neither a lexeme
nor a gap nor a comment; and the end of a text is blamed at its last token. -/
inductive Blames (text : List Char) (ts : List Lexeme) : Unexpected → Cursor → Prop where
  | token {t : String} {place : Cursor} (hplaced : PlacedBefore ts t.toList place text)
      (hspells : ∃ kind : LexemeKind, kind.Spells t.toList)
      (hnone : ∀ (l : Lexeme) (more : List Lexeme) (es : List Equation), l.kind.Spells t.toList →
        ¬ Program (ts ++ l :: more) es) : Blames text ts (.token t) place
  | character {c : Char} {place : Cursor} (hplaced : PlacedBefore ts [c] place text)
      (hgap : Lexeme.isGap c = false) (hhash : c ≠ '#')
      (hnone : ∀ (kind : LexemeKind) (cs : List Char), ¬ kind.Spells (c :: cs)) :
      Blames text ts (.character c) place
  | endOfInput {l : Lexeme} (hplaced : Placed [] ts text) (hlast : ts.getLast? = some l)
      (hnone : ∀ es, ¬ Program ts es) : Blames text ts .endOfInput l.start

/-- What is blamed stands behind the text before it. -/
theorem Blames.exists_behind {text : List Char} {ts : List Lexeme} {what : Unexpected}
    {place : Cursor} (h : Blames text ts what place) :
    ∃ head rest, text = head ++ rest ∧ place = .behind head := by
  cases h with
  | token hplaced | character hplaced =>
    obtain ⟨head, rest, htext, -, hplace⟩ := hplaced
    exact ⟨head, _, htext, hplace⟩
  | endOfInput hplaced hlast => exact hplaced.exists_of_mem (List.mem_of_getLast? hlast)

/-- The text before the place has the same length and the same lines with its comments. -/
theorem Blames.place_eq {text : List Char} {ts : List Lexeme} {what : Unexpected} {place : Cursor}
    (h : Blames (blankComments false text) ts what place) :
    place = .behind (text.take place.offset) := by
  obtain ⟨head, rest, htext, rfl⟩ := h.exists_behind
  show Cursor.behind head = .behind (text.take head.length)
  calc Cursor.behind head
      = .behind ((blankComments false text).take head.length) := by rw [htext, List.take_left]
    _ = .behind (blankComments false (text.take head.length)) := by rw [take_blankComments]
    _ = .behind (text.take head.length) := behind_blankComments false _

/-- Tokens that have been read: they lead to a stage and take up the text so far. -/
structure Reached (ts : List Lexeme) (head : List Char) (stage : Stage) (last : Cursor) : Prop where
  leads : Leads .start ts stage
  spells : ∀ t ∈ ts, t.kind.Spells t.text
  placed : Placed [] ts head
  last_eq : ∀ t, ts.getLast? = some t → t.start = last

namespace Reached

variable {ts : List Lexeme} {head gap : List Char} {stage next : Stage} {last : Cursor}
  {l t : Lexeme}

theorem nothing : Reached [] [] .start .start :=
  ⟨.nil .start, by simp, .nil (by simp), by simp⟩

/-- One more token is read. -/
theorem step (h : Reached ts head stage last) (hgap : ∀ c ∈ gap, Lexeme.isGap c = true)
    (hstart : t.start = .behind (head ++ gap)) (ht : t.kind.Spells t.text)
    (hnext : stage.next t.kind = some next) :
    Reached (ts ++ [t]) (head ++ gap ++ t.text) next t.start where
  leads := h.leads.append (.single hnext)
  spells := List.forall_mem_append.mpr ⟨h.spells, List.forall_mem_singleton.mpr ht⟩
  placed := (h.placed.append_gap hgap).append_lexeme hstart
  last_eq := by simp

/-- A lexeme that is not allowed is blamed. -/
theorem blames_lexeme (h : Reached ts head stage last) (hgap : ∀ c ∈ gap, Lexeme.isGap c = true)
    (hstart : l.start = .behind (head ++ gap)) (hl : IsCut l) (hzero : ¬ l.SplitsAt stage)
    (hnext : stage.next l.kind = none) (rest : List Char) :
    Blames (head ++ (gap ++ (l.text ++ rest))) ts l.asUnexpected l.start := by
  have hplaced : PlacedBefore ts l.text l.start (head ++ (gap ++ (l.text ++ rest))) :=
    ⟨head ++ gap, rest, (List.append_assoc ..).symm, h.placed.append_gap hgap, hstart⟩
  cases hl with
  | spelled hcut hspells =>
    rw [Lexeme.asUnexpected_of_spells hspells]
    refine .token ?_ ?_ ?_
    · rwa [String.toList_ofList]
    · rw [String.toList_ofList]
      exact ⟨l.kind, hspells⟩
    · intro k more es hk
      rw [String.toList_ofList] at hk
      exact Grammar.not_program_of_next h.leads
        (Stage.next_eq_none_of_spells hspells hcut hzero hnext hk) more es
  | @stray c hkind htext hnogap hhash hstray =>
    have hwhat : l.asUnexpected = .character c := by simp [Lexeme.asUnexpected, hkind, htext]
    rw [htext] at hplaced ⊢
    rw [hwhat]
    exact .character hplaced hnogap hhash (Lexeme.not_spells_of_stray hstray)

/-- Digits that are left over stand right behind a zero, where a right side is complete. -/
theorem blames_leftOver {start : Cursor} {digits : List Char} (h : Reached ts head .equals last)
    (hgap : ∀ c ∈ gap, Lexeme.isGap c = true) (hstart : start = .behind (head ++ gap))
    (hdigits : LexemeKind.digits.Spells digits) (rest : List Char) :
    Reached (ts ++ [⟨.zero, ['0'], start⟩]) (head ++ gap ++ ['0']) .complete start ∧
      Blames (head ++ (gap ++ ('0' :: (digits ++ rest)))) (ts ++ [⟨.zero, ['0'], start⟩])
        (.token (String.ofList digits)) (start.next '0') := by
  have hzero := h.step (t := ⟨.zero, ['0'], start⟩) hgap hstart rfl rfl
  have hplace : start.next '0' = .behind (head ++ gap ++ ['0'] ++ []) := by
    rw [List.append_nil, ← Cursor.next_behind, ← hstart]
  have hcut : IsCut ⟨.digits, digits, start.next '0'⟩ := .spelled (by simp) hdigits
  have hblames := hzero.blames_lexeme (by simp) hplace hcut (by simp [Lexeme.SplitsAt]) rfl rest
  rw [Lexeme.asUnexpected_of_spells hdigits] at hblames
  refine ⟨hzero, ?_⟩
  simpa only [List.append_assoc, List.nil_append, List.singleton_append] using hblames

/-- The end of a text is blamed where no program may end. -/
theorem blames_end (h : Reached ts head stage last) (hgap : ∀ c ∈ gap, Lexeme.isGap c = true)
    (hfinal : stage.isFinal = false) : Blames (head ++ gap) ts .endOfInput last := by
  cases hlast : ts.getLast? with
  | none =>
    -- before the first token a program may end
    obtain rfl := List.getLast?_eq_none_iff.mp hlast
    cases h.leads
    cases hfinal
  | some t =>
    rw [← h.last_eq t hlast]
    exact .endOfInput (h.placed.append_gap hgap) hlast
      (Grammar.not_program_of_isFinal h.leads hfinal)

end Reached

/-! ## Readings -/

variable {stage : Stage} {last : Cursor} {l : Lexeme} {ls ts done : List Lexeme}

theorem eq_of_failure {r : Reading} {failure : Option (Unexpected × Cursor)}
    (h : r.failure = failure) : r = ⟨r.tokens, failure⟩ := by
  rw [← h]

/-- What one step of a reading that fails is: a lexeme is refused, digits are left over after a
zero, or a token is read and the rest fails. -/
theorem ofLexemes_cons_cases {what : Unexpected} {place : Cursor} (hl : IsCut l)
    (h : ofLexemes stage last (l :: ls) = ⟨ts, some (what, place)⟩) :
    (¬ l.SplitsAt stage ∧ stage.next l.kind = none ∧ ts = [] ∧ what = l.asUnexpected ∧
        place = l.start) ∨
      (∃ c digits start, l = ⟨.digits, '0' :: c :: digits, start⟩ ∧ stage = .equals ∧
        ts = [⟨.zero, ['0'], start⟩] ∧ what = .token (String.ofList (c :: digits)) ∧
        place = start.next '0') ∨
      ∃ t next ts', t.text = l.text ∧ t.start = l.start ∧ t.kind.Spells t.text ∧
        stage.next t.kind = some next ∧ ts = t :: ts' ∧
        ofLexemes next t.start ls = ⟨ts', some (what, place)⟩ := by
  by_cases hzero : l.SplitsAt stage
  · obtain ⟨kind, text, start⟩ := l
    obtain ⟨rfl, rfl, digits, rfl⟩ := hzero
    cases digits with
    | nil =>
      obtain ⟨rfl, hfailure⟩ := Reading.mk.inj h
      exact .inr (.inr ⟨⟨.zero, ['0'], start⟩, .complete, _, rfl, rfl, rfl, rfl, rfl,
        eq_of_failure hfailure⟩)
    | cons c digits =>
      obtain ⟨rfl, hfailure⟩ := Reading.mk.inj h
      obtain ⟨rfl, rfl⟩ := Prod.mk.inj (Option.some.inj hfailure)
      exact .inr (.inl ⟨c, digits, start, rfl, rfl, rfl, rfl, rfl⟩)
  · rw [ofLexemes, Lexeme.splitZero_eq_self hzero] at h
    cases hnext : stage.next l.kind with
    | none =>
      simp only [hnext] at h
      obtain ⟨rfl, hfailure⟩ := Reading.mk.inj h
      obtain ⟨rfl, rfl⟩ := Prod.mk.inj (Option.some.inj hfailure)
      exact .inl ⟨hzero, rfl, rfl, rfl, rfl⟩
    | some next =>
      simp only [hnext] at h
      obtain ⟨rfl, hfailure⟩ := Reading.mk.inj h
      cases hl with
      | spelled _ hspells =>
        exact .inr (.inr ⟨l, next, _, rfl, rfl, hspells, hnext, rfl, eq_of_failure hfailure⟩)
      | stray hkind =>
        have hleads : Leads stage [l] next := .single hnext
        exact absurd hkind (hleads.not_stray l List.mem_cons_self)

/-- **What a reading blames is the first thing that no program goes on with**, and the tokens before
it have been read. -/
theorem blames_of_ofLexemes {head text : List Char} {what : Unexpected} {place : Cursor}
    (hdone : Reached done head stage last) (hplaced : Placed head ls text)
    (hcut : ∀ l ∈ ls, IsCut l) (h : ofLexemes stage last ls = ⟨ts, some (what, place)⟩) :
    (∃ head' stage' last', Reached (done ++ ts) head' stage' last') ∧
      Blames (head ++ text) (done ++ ts) what place := by
  -- by induction on what is still to be read; `Reached` carries over what has been read
  induction ls generalizing done head text stage last ts with
  | nil =>
    cases hplaced with
    | nil hgap =>
    cases hfinal : stage.isFinal with
    | true => simp [ofLexemes, hfinal] at h
    | false =>
      obtain ⟨rfl, rfl, rfl⟩ : ts = [] ∧ .endOfInput = what ∧ last = place := by
        simpa [ofLexemes, hfinal, eq_comm] using h
      rw [List.append_nil]
      exact ⟨⟨head, stage, last, hdone⟩, hdone.blames_end hgap hfinal⟩
  | cons l ls ih =>
    obtain ⟨hl, hls⟩ := List.forall_mem_cons.mp hcut
    cases hplaced with
    | @cons _ gap rest _ _ hgap hstart hrest =>
    rcases ofLexemes_cons_cases hl h with ⟨hzero, hnext, rfl, rfl, rfl⟩ |
      ⟨c, digits, start, rfl, rfl, rfl, rfl, rfl⟩ |
      ⟨t, next, ts, htext, hplace, ht, hnext, rfl, hread⟩
    · rw [List.append_nil]
      exact ⟨⟨head, stage, last, hdone⟩, hdone.blames_lexeme hgap hstart hl hzero hnext rest⟩
    · have hdigits : LexemeKind.digits.Spells (c :: digits) := by
        cases hl with
        | spelled _ hspells => exact ⟨by simp, (List.forall_mem_cons.mp hspells.2).2⟩
        | stray hkind => cases hkind
      obtain ⟨hzero, hblames⟩ := hdone.blames_leftOver hgap hstart hdigits rest
      exact ⟨⟨_, _, _, hzero⟩, hblames⟩
    · have hstep := hdone.step hgap (hplace.trans hstart) ht hnext
      rw [htext] at hstep
      have hrun := ih hstep hrest hls hread
      simpa only [List.append_assoc, List.singleton_append] using hrun

end Reading

/-! ## Errors -/

namespace Equation

theorem parseChars_of_failure {text : List Char} {ts : List Lexeme} {what : Unexpected}
    {place : Cursor} (h : Reading.ofText text = ⟨ts, some (what, place)⟩) :
    parseChars text = .error
      (.unexpected what ⟨place.line, place.column, context text place.offset⟩) := by
  simp [parseChars, h]

/-- **Errors point at the first thing that cannot be read on.** A text that is refused has been read
up to a place: the tokens before it begin a program, and what stands there cannot follow them. The
error tells the line feeds before the place and the characters since the last one, both counted from
one. -/
theorem parse_error_points {text : String} {fault : Fault} (h : parse text = .error fault) :
    ∃ ts what place, Reading.ofText text.toList = ⟨ts, some (what, place)⟩ ∧
      fault = .unexpected what ⟨place.line, place.column, context text.toList place.offset⟩ ∧
      place = .behind (text.toList.take place.offset) ∧
      (∃ more es, (∀ l ∈ ts ++ more, l.kind.Spells l.text) ∧ Program (ts ++ more) es) ∧
      Reading.Blames (blankComments false text.toList) ts what place := by
  obtain ⟨⟨ts, failure⟩, hreading⟩ : ∃ r, Reading.ofText text.toList = r := ⟨_, rfl⟩
  cases failure with
  | none =>
    rw [parse, parseChars_of_reading hreading] at h
    cases h
  | some failure =>
    obtain ⟨what, place⟩ := failure
    rw [parse, parseChars_of_failure hreading] at h
    obtain ⟨⟨_, _, _, hreached⟩, hblames⟩ := Reading.blames_of_ofLexemes Reading.Reached.nothing
      (Lexeme.placed_cut text.toList) (Lexeme.isCut_of_mem_cut text.toList) hreading
    exact ⟨ts, what, place, hreading, (Except.error.inj h).symm, hblames.place_eq,
      Grammar.exists_program hreached.leads hreached.spells, hblames⟩

/-- A right side that starts with a zero, after a comment and a tab. -/
def leadingZero : String := "a = 0 # one\n\tb = 01"

def leadingZeroTokens : List Lexeme :=
  [⟨.word, ['a'], ⟨0, 1, 1⟩⟩, ⟨.equals, ['='], ⟨2, 1, 3⟩⟩, ⟨.zero, ['0'], ⟨4, 1, 5⟩⟩,
    ⟨.newlines, ['\n'], ⟨11, 1, 12⟩⟩, ⟨.word, ['b'], ⟨13, 2, 2⟩⟩, ⟨.equals, ['='], ⟨15, 2, 4⟩⟩,
    ⟨.zero, ['0'], ⟨17, 2, 6⟩⟩]

/-- The digit after the zero is blamed, in the second line and the seventh column: a lexeme that is
written `1` cannot follow the tokens before it. -/
theorem parse_error_points_leadingZero :
    parse leadingZero = .error
        (.unexpected (.token "1") ⟨2, 7, context leadingZero.toList 18⟩) ∧
      ∀ l more es, l.kind.Spells ['1'] → ¬ Program (leadingZeroTokens ++ l :: more) es := by
  have hreading : Reading.ofText leadingZero.toList =
      ⟨leadingZeroTokens, some (.token "1", ⟨18, 2, 7⟩)⟩ := by decide +kernel
  have hparse := parseChars_of_failure hreading
  refine ⟨hparse, ?_⟩
  obtain ⟨ts, what, place, hread, -, -, -, hblames⟩ := parse_error_points hparse
  obtain ⟨rfl, hfailure⟩ := Reading.mk.inj (hreading.symm.trans hread)
  obtain ⟨rfl, -⟩ := Prod.mk.inj (Option.some.inj hfailure)
  cases hblames with
  | token _ _ hnone => exact hnone

end Equation

end PlonkGates
