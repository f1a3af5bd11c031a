import PlonkGates.Proofs.Sentences
import PlonkGates.Proofs.Units

/-!
# Programs are read as the grammar derives them

A text is read as a list of equations exactly if the grammar derives them from one of the splits of
the text (`parseChars_eq_ok_iff`).

One direction looks at the tokens of a reading: they split the text, and the machine accepts them.
For the other one, let the machine accept some split. The lexemes that the text is cut into have the
same units, so they can be read as tokens too, and units are all that equations are gathered from.
-/

namespace PlonkGates

open Stage (Leads)

/-! ## Tokens of a reading -/

namespace Lexeme

variable {stage next : Stage} {l : Lexeme} {ls ts : List Lexeme} {before text : List Char}

theorem Split.spells (h : Split before ls text) : ∀ l ∈ ls, l.kind.Spells l.text := by
  induction h with
  | nil => simp
  | cons _ hspells _ _ ih => exact List.forall_mem_cons.mpr ⟨hspells, ih⟩

/-- Zeros may be told apart from digits afterwards. -/
theorem Split.of_asCut (h : Split before ls text) (heq : ts.map asCut = ls.map asCut)
    (hspells : ∀ t ∈ ts, t.kind.Spells t.text) : Split before ts text := by
  induction h generalizing ts with
  | nil hgap =>
    obtain rfl : ts = [] := by simpa using heq
    exact .nil hgap
  | @cons before gap rest l ls hgap _ hline _ ih =>
    obtain ⟨t, ts, rfl, ht, hts⟩ := List.map_eq_cons_iff.mp heq
    obtain ⟨htspells, hspells⟩ := List.forall_mem_cons.mp hspells
    obtain ⟨-, htext, hstart⟩ := Lexeme.mk.inj ht
    rw [← htext]
    refine Split.cons hgap htspells ?_ ?_
    · rw [hstart, hline]
    · rw [htext]
      exact ih hts hspells

theorem asCut_asCut (l : Lexeme) : l.asCut.asCut = l.asCut := by
  obtain ⟨kind, text, start⟩ := l
  cases kind <;> rfl

/-- No lexeme is stray if no token is. -/
theorem not_stray_of_asCut (heq : ts.map asCut = ls.map asCut) (hts : ∀ t ∈ ts, t.kind ≠ .stray) :
    ∀ l ∈ ls, l.kind ≠ .stray := by
  intro l hl hstray
  have hmem : l.asCut ∈ ts.map asCut := by
    rw [heq]
    exact List.mem_map_of_mem hl
  obtain ⟨t, ht, hcut⟩ := List.mem_map.mp hmem
  have hkind : t.kind.asCut = l.kind.asCut := congrArg kind hcut
  rw [hstray] at hkind
  refine hts t ht ?_
  cases hk : t.kind <;> rw [hk] at hkind <;> first | rfl | cases hkind

/-- A zero is cut off from a lexeme in a stage. -/
def SplitsAt (l : Lexeme) (stage : Stage) : Prop :=
  stage = .equals ∧ l.kind = .digits ∧ ∃ digits, l.text = '0' :: digits

theorem splitZero_eq_self (h : ¬ l.SplitsAt stage) : l.splitZero stage = (l, none) := by
  unfold splitZero
  split
  · next digits hkind htext => exact absurd ⟨rfl, hkind, digits, htext⟩ h
  · rfl

theorem splitZero_of_ne (h : ¬ (stage = .equals ∧ l.kind = .digits)) :
    l.splitZero stage = (l, none) :=
  splitZero_eq_self fun hsplit => h ⟨hsplit.1, hsplit.2.1⟩

/-- A zero is told apart from digits where it is allowed. -/
theorem splitZero_asCut (hl : stage.next l.kind = some next) (hspells : l.kind.Spells l.text) :
    l.asCut.splitZero stage = (l, none) := by
  by_cases hzero : l.kind = .zero
  · obtain ⟨kind, text, start⟩ := l
    obtain rfl : kind = .zero := hzero
    obtain rfl : text = ['0'] := hspells
    cases stage with
    | equals => rfl
    | _ => cases hl
  · rw [asCut_eq_self hzero]
    refine splitZero_of_ne ?_
    rintro ⟨rfl, hdigits⟩
    rw [hdigits] at hl
    cases hl

/-- A token that leaves nothing over of its lexeme has its text and its place. -/
theorem splitZero_of_none {token : Lexeme} (h : l.splitZero stage = (token, none)) :
    token.asCut = l.asCut ∧ (token = l ∨ token.kind.Spells token.text) := by
  by_cases hsplit : stage = .equals ∧ l.kind = .digits
  · obtain ⟨kind, text, start⟩ := l
    obtain ⟨rfl, rfl⟩ := hsplit
    unfold splitZero at h
    split at h
    · next rest _ _ heq =>
      obtain ⟨rfl, hrest⟩ := Prod.mk.inj h
      by_cases hnil : rest = []
      · subst hnil
        obtain rfl : text = ['0'] := heq
        exact ⟨rfl, Or.inr rfl⟩
      · rw [if_neg hnil] at hrest
        cases hrest
    · obtain ⟨rfl, -⟩ := Prod.mk.inj h
      exact ⟨rfl, Or.inl rfl⟩
  · rw [splitZero_of_ne hsplit] at h
    obtain ⟨rfl, -⟩ := Prod.mk.inj h
    exact ⟨rfl, Or.inl rfl⟩

end Lexeme

namespace Reading

variable {stage final : Stage} {last : Cursor} {ls ts : List Lexeme}

/-- Tokens that lead to the end of a program are read. -/
theorem ofLexemes_of_leads (h : Leads stage ts final) (hfinal : final.isFinal = true)
    (hspells : ∀ t ∈ ts, t.kind.Spells t.text) :
    ofLexemes stage last (ts.map Lexeme.asCut) = ⟨ts, none⟩ := by
  induction h generalizing last with
  | nil stage => simp [ofLexemes, hfinal]
  | cons hl _ ih =>
    obtain ⟨ht, hts⟩ := List.forall_mem_cons.mp hspells
    rw [List.map_cons, ofLexemes, Lexeme.splitZero_asCut hl ht]
    simp only [hl, ih hfinal hts]
    rfl

/-- What is read to the end leads to the end of a program. -/
theorem leads_of_ofLexemes (h : (ofLexemes stage last ls).failure = none)
    (hts : (ofLexemes stage last ls).tokens = ts) :
    (∃ final, Leads stage ts final ∧ final.isFinal = true) ∧
      ts.map Lexeme.asCut = ls.map Lexeme.asCut ∧ ∀ t ∈ ts, t ∈ ls ∨ t.kind.Spells t.text := by
  induction ls generalizing stage last ts with
  | nil =>
    subst hts
    refine ⟨⟨stage, .nil stage, ?_⟩, rfl, by simp [ofLexemes]⟩
    cases hfinal : stage.isFinal with
    | true => rfl
    | false => simp [ofLexemes, hfinal] at h
  | cons l ls ih =>
    rw [ofLexemes] at h hts
    cases hsplit : l.splitZero stage with
    | mk token leftOver =>
    rw [hsplit] at h hts
    cases hnext : stage.next token.kind with
    | none => simp [hnext] at h
    | some next =>
      cases leftOver with
      | some digits => simp [hnext] at h
      | none =>
        simp only [hnext] at h hts
        subst hts
        obtain ⟨⟨final, hleads, hfinal⟩, hcut, hspells⟩ := ih h rfl
        obtain ⟨htoken, hspelled⟩ := Lexeme.splitZero_of_none hsplit
        refine ⟨⟨final, .cons hnext hleads, hfinal⟩, ?_, ?_⟩
        · simp only [cons, List.map_cons, htoken, hcut]
        · refine List.forall_mem_cons.mpr ⟨hspelled.imp_left ?_, fun t ht => ?_⟩
          · rintro rfl
            exact List.mem_cons_self
          · exact (hspells t ht).imp_left (List.mem_cons_of_mem l)

end Reading

/-- A stray character is allowed nowhere. -/
theorem Stage.Leads.not_stray {stage last : Stage} {ls : List Lexeme} (h : Leads stage ls last) :
    ∀ l ∈ ls, l.kind ≠ .stray := by
  induction h with
  | nil => simp
  | @cons stage _ _ l ls hl _ ih =>
    refine List.forall_mem_cons.mpr ⟨fun hstray => ?_, ih⟩
    rw [hstray] at hl
    cases stage <;> cases hl

/-! ## Units of tokens -/

namespace Lexeme

variable {l u : Lexeme} {ls us : List Lexeme}

theorem eq_lineFeed_of_asCut (h : u.asCut = lineFeed) : u = lineFeed := by
  rw [← h, asCut_eq_self]
  intro hzero
  have hkind : u.kind.asCut = .newlines := congrArg kind h
  rw [hzero] at hkind
  cases hkind

theorem units_asCut (l : Lexeme) : l.asCut.units = l.units.map asCut := by
  obtain ⟨kind, text, start⟩ := l
  cases kind <;> simp [units, asCut, LexemeKind.asCut, bare, lineFeed]

theorem flatMap_units_asCut (ls : List Lexeme) :
    (ls.map asCut).flatMap units = (ls.flatMap units).map asCut := by
  rw [List.flatMap_map, List.map_flatMap]
  exact congrArg (ls.flatMap ·) (funext units_asCut)

/-- A lexeme that is cut can be read as a token with given units. -/
theorem exists_token (h : us.map asCut = l.units) : ∃ t : Lexeme, t.asCut = l ∧ t.units = us := by
  by_cases hl : l.kind = .newlines
  · refine ⟨l, asCut_eq_self (by simp [hl]), ?_⟩
    rw [units_newlines hl] at h ⊢
    obtain ⟨hlength, hfeeds⟩ := List.eq_replicate_iff.mp h
    refine (List.eq_replicate_iff.mpr ⟨by simpa using hlength, fun u hu => ?_⟩).symm
    exact eq_lineFeed_of_asCut (hfeeds _ (List.mem_map_of_mem hu))
  · -- the kind is that of the unit, which tells a zero from digits
    rw [units_other hl] at h
    obtain ⟨u, rfl, hu⟩ := List.map_eq_singleton_iff.mp h
    obtain ⟨hkind, htext, hstart⟩ := Lexeme.mk.inj hu
    have hother : u.kind ≠ .newlines := by
      intro hnewlines
      rw [hnewlines] at hkind
      exact hl hkind.symm
    refine ⟨⟨u.kind, l.text, l.start⟩, ?_, ?_⟩
    · rw [asCut, hkind]
    · rw [units_other (l := ⟨u.kind, l.text, l.start⟩) hother, bare, ← htext, ← hstart]

/-- Lexemes that are cut can be read as tokens with given units. -/
theorem exists_tokens (h : us.map asCut = ls.flatMap units) :
    ∃ ts : List Lexeme, ts.map asCut = ls ∧ ts.flatMap units = us := by
  induction ls generalizing us with
  | nil =>
    obtain rfl : us = [] := by simpa using h
    exact ⟨[], rfl, rfl⟩
  | cons l ls ih =>
    rw [List.flatMap_cons] at h
    obtain ⟨first, rest, rfl, hfirst, hrest⟩ := List.map_eq_append_iff.mp h
    obtain ⟨t, rfl, rfl⟩ := exists_token hfirst
    obtain ⟨ts, rfl, rfl⟩ := ih hrest
    exact ⟨t :: ts, rfl, rfl⟩

/-- Tokens other than line feeds are spelled as lexemes with the same units are. -/
theorem spells_of_units {ts : List Lexeme} (h : ts.flatMap units = ls.flatMap units)
    (hspells : ∀ l ∈ ls, l.kind.Spells l.text) {t : Lexeme} (ht : t ∈ ts)
    (hother : t.kind ≠ .newlines) : t.kind.Spells t.text := by
  have hmem : t.bare ∈ ls.flatMap units := by
    rw [← h]
    exact List.mem_flatMap.mpr ⟨t, ht, by simp [units_other hother]⟩
  obtain ⟨l, hl, hbare⟩ := List.mem_flatMap.mp hmem
  by_cases hline : l.kind = .newlines
  · rw [units_newlines hline] at hbare
    have hfeed := List.eq_of_mem_replicate hbare
    exact absurd (congrArg kind hfeed) hother
  · rw [units_other hline, List.mem_singleton] at hbare
    obtain ⟨hkind, htext, -⟩ := Lexeme.mk.inj hbare
    rw [hkind, htext]
    exact hspells l hl

end Lexeme

/-! The machine and the equations depend on the units of tokens alone. -/

namespace Stage.Leads

variable {stage last : Stage} {ls rest : List Lexeme}

theorem cons_iff {l : Lexeme} : Leads stage (l :: ls) last ↔
    ∃ next, stage.next l.kind = some next ∧ Leads next ls last := by
  constructor
  · rintro (_ | ⟨hl, hls⟩)
    exact ⟨_, hl, hls⟩
  · rintro ⟨next, hl, hls⟩
    exact .cons hl hls

theorem start_lineFeeds (n : Nat) :
    Leads .start (List.replicate n Lexeme.lineFeed ++ rest) last ↔ Leads .start rest last := by
  induction n with
  | zero => rfl
  | succ n ih =>
    rw [List.replicate_succ, List.cons_append, cons_iff, ← ih]
    simp [Lexeme.lineFeed, Stage.next]

/-- Line feeds lead where one of them leads. -/
theorem lineFeeds_iff {n : Nat} (hn : n ≠ 0) :
    Leads stage (List.replicate n Lexeme.lineFeed ++ rest) last ↔
      ∃ next, stage.next .newlines = some next ∧ Leads next rest last := by
  obtain ⟨m, rfl⟩ := Nat.exists_eq_succ_of_ne_zero hn
  rw [List.replicate_succ, List.cons_append, cons_iff]
  refine exists_congr fun next => and_congr_right fun hnext => ?_
  obtain ⟨-, rfl⟩ := Stage.next_of_separator (Or.inl rfl) hnext
  exact start_lineFeeds m

theorem units_iff (hspells : ∀ l ∈ ls, l.kind.Spells l.text) :
    Leads stage (ls.flatMap Lexeme.units) last ↔ Leads stage ls last := by
  induction ls generalizing stage with
  | nil => rfl
  | cons l ls ih =>
    obtain ⟨hl, hls⟩ := List.forall_mem_cons.mp hspells
    rw [List.flatMap_cons, cons_iff]
    by_cases hline : l.kind = .newlines
    · rw [Lexeme.units_newlines hline, lineFeeds_iff (by simpa using hl.ne_nil), hline]
      exact exists_congr fun next => and_congr_right fun _ => ih hls
    · rw [Lexeme.units_other hline, List.singleton_append, cons_iff]
      exact exists_congr fun next => and_congr_right fun _ => ih hls

end Stage.Leads

namespace Grammar

open Equation (signedTerms termsOf rightOf ofTokens isSeparator runs listOfTokens)

variable {ls : List Lexeme}

theorem signedTerms_bare (ls : List Lexeme) :
    signedTerms (ls.map Lexeme.bare) = signedTerms ls := by
  induction ls with
  | nil => rfl
  | cons l ls ih =>
    rw [List.map_cons, signedTerms, ih, signedTerms]
    rfl

theorem rightOf_bare (ls : List Lexeme) : rightOf (ls.map Lexeme.bare) = rightOf ls := by
  induction ls with
  | nil => rfl
  | cons l ls ih =>
    rw [List.map_cons, rightOf, ih, rightOf]
    rfl

theorem ofTokens_bare (ls : List Lexeme) : ofTokens (ls.map Lexeme.bare) = ofTokens ls := by
  have hbare : (fun l => decide (l.kind ≠ .equals)) ∘ Lexeme.bare =
      fun l => decide (l.kind ≠ .equals) := rfl
  rw [ofTokens, List.takeWhile_map, List.dropWhile_map, hbare, ← List.map_drop, termsOf,
    signedTerms_bare, rightOf_bare, List.head?_map, Option.map_map]
  rfl

theorem allRuns_of_runs {xs : List Lexeme} (h : runs xs =
      ((runs ls).1.map Lexeme.bare, (runs ls).2.map (List.map Lexeme.bare))) :
    allRuns xs = (allRuns ls).map (List.map Lexeme.bare) := by
  rw [allRuns, allRuns, h, List.isEmpty_map]
  split_ifs <;> rfl

theorem runs_units (hspells : ∀ l ∈ ls, l.kind.Spells l.text) :
    runs (ls.flatMap Lexeme.units) =
      ((runs ls).1.map Lexeme.bare, (runs ls).2.map (List.map Lexeme.bare)) := by
  induction ls with
  | nil => rfl
  | cons l ls ih =>
    obtain ⟨hl, hls⟩ := List.forall_mem_cons.mp hspells
    have hruns := ih hls
    rw [List.flatMap_cons]
    by_cases hline : l.kind = .newlines
    · -- the first line feed ends the run before it, and the others end nothing
      obtain ⟨n, hn⟩ := Nat.exists_eq_succ_of_ne_zero (by simpa using hl.ne_nil : l.text.length ≠ 0)
      have hfeed : isSeparator Lexeme.lineFeed = true := rfl
      have hfeeds : Separators (List.replicate n Lexeme.lineFeed) := by
        intro feed hmem
        rw [List.eq_of_mem_replicate hmem]
        exact Or.inl rfl
      rw [Lexeme.units_newlines hline, hn, List.replicate_succ, List.cons_append,
        runs_separator hfeed, allRuns_separators hfeeds, allRuns_of_runs hruns,
        runs_separator (isSeparator_iff.mpr (Or.inl hline))]
      rfl
    · rw [Lexeme.units_other hline, List.singleton_append]
      cases hsep : isSeparator l with
      | true =>
        have hbare : isSeparator l.bare = true := hsep
        rw [runs_separator hbare, runs_separator hsep, allRuns_of_runs hruns]
        rfl
      | false =>
        have hbare : isSeparator l.bare = false := hsep
        rw [runs_cons hbare, runs_cons hsep, hruns]
        rfl

/-- **Equations are gathered from the units of tokens.** -/
theorem listOfTokens_units (hspells : ∀ l ∈ ls, l.kind.Spells l.text) :
    listOfTokens (ls.flatMap Lexeme.units) = listOfTokens ls := by
  have hbare : ofTokens ∘ List.map Lexeme.bare = ofTokens := funext ofTokens_bare
  rw [listOfTokens_eq, listOfTokens_eq, allRuns_of_runs (runs_units hspells), List.map_map, hbare]

end Grammar

/-! ## Both directions -/

namespace Equation

open Grammar (Derives program_iff)
open Lexeme (onLine)

variable {text : List Char} {es : List Equation}

theorem parseChars_of_reading {ts : List Lexeme} (h : Reading.ofText text = ⟨ts, none⟩) :
    parseChars text = .ok (listOfTokens ts) := by
  simp [parseChars, h]

/-- **What is read of a text, the grammar derives from it.** -/
theorem derives_of_parseChars (h : parseChars text = .ok es) : Derives text es := by
  cases hreading : Reading.ofText text with
  | mk ts failure =>
  cases failure with
  | some failure => simp [parseChars, hreading] at h
  | none =>
    rw [parseChars_of_reading hreading, Except.ok.injEq] at h
    have hfailure := congrArg Reading.failure hreading
    have htokens := congrArg Reading.tokens hreading
    obtain ⟨⟨last, hleads, hfinal⟩, hcut, hspelled⟩ := Reading.leads_of_ofLexemes hfailure htokens
    have hsplit := Lexeme.split_cut text (Lexeme.not_stray_of_asCut hcut hleads.not_stray)
    have hspells : ∀ t ∈ ts, t.kind.Spells t.text := fun t ht =>
      (hspelled t ht).elim (hsplit.spells t) id
    exact ⟨ts, hsplit.of_asCut hcut hspells, program_iff.mpr ⟨⟨last, hleads, hfinal⟩, h⟩⟩

/-- Tokens that a text is cut into are spelled, if they have the units of lexemes that are. -/
theorem spells_of_cut {ts ls : List Lexeme} (hts : ts.map Lexeme.asCut = Lexeme.cut text)
    (hunits : ts.flatMap Lexeme.units = ls.flatMap Lexeme.units)
    (hls : ∀ l ∈ ls, l.kind.Spells l.text) : ∀ t ∈ ts, t.kind.Spells t.text := by
  have hcut : ts.map Lexeme.asCut = (Lexeme.cut text).map Lexeme.asCut := by
    rw [← hts, List.map_map]
    exact congrArg (ts.map ·) (funext fun l => (Lexeme.asCut_asCut l).symm)
  have hstray : ∀ t ∈ ts, t.kind ≠ .stray := by
    intro t ht hstray
    have hspells := Lexeme.spells_of_units hunits hls ht (by simp [hstray])
    rw [hstray] at hspells
    exact hspells
  have hsplit := Lexeme.split_cut text (Lexeme.not_stray_of_asCut hcut hstray)
  intro t ht
  by_cases hline : t.kind = .newlines
  · have hmem : t.asCut ∈ Lexeme.cut text := hts ▸ List.mem_map_of_mem ht
    rw [Lexeme.asCut_eq_self (by simp [hline])] at hmem
    exact hsplit.spells t hmem
  · exact Lexeme.spells_of_units hunits hls ht hline

/-- **A text is read if it has the units of tokens that lead to the end of a program.** -/
theorem parseChars_of_units {ls : List Lexeme} {last : Stage}
    (hcut : (Lexeme.cut text).flatMap Lexeme.units = (ls.map Lexeme.asCut).flatMap Lexeme.units)
    (hls : ∀ l ∈ ls, l.kind.Spells l.text) (hleads : Leads .start ls last)
    (hfinal : last.isFinal = true) : parseChars text = .ok (listOfTokens ls) := by
  rw [Lexeme.flatMap_units_asCut] at hcut
  obtain ⟨ts, hts, hunits⟩ := Lexeme.exists_tokens hcut.symm
  have hspells := spells_of_cut hts hunits hls
  have htsLeads : Leads .start ts last := by
    rw [← Leads.units_iff hspells, hunits, Leads.units_iff hls]
    exact hleads
  have hreading : Reading.ofText text = ⟨ts, none⟩ := by
    rw [Reading.ofText, ← hts]
    exact Reading.ofLexemes_of_leads htsLeads hfinal hspells
  rw [parseChars_of_reading hreading, ← Grammar.listOfTokens_units hspells, hunits,
    Grammar.listOfTokens_units hls]

/-- **What the grammar derives from a text is read.** -/
theorem parseChars_of_derives (h : Derives text es) : parseChars text = .ok es := by
  obtain ⟨ls, hsplit, hprogram⟩ := h
  obtain ⟨⟨last, hleads, hfinal⟩, rfl⟩ := program_iff.mp hprogram
  exact parseChars_of_units (Lexeme.units_cut_eq hsplit hleads) hsplit.spells hleads hfinal

theorem parseChars_eq_ok_iff : parseChars text = .ok es ↔ Derives text es :=
  ⟨derives_of_parseChars, parseChars_of_derives⟩

/-- **A text is read exactly if the grammar derives equations from it**, in whatever way it is split
into lexemes, and all derivations give the equations that are read. -/
theorem parse_iff_derives (text : String) :
    ((∃ es, parse text = .ok es) ↔ ∃ es, Derives text.toList es) ∧
      ∀ es, Derives text.toList es → parse text = .ok es := by
  exact ⟨exists_congr fun es => parseChars_eq_ok_iff, fun es => parseChars_of_derives⟩

/-- Two equations with a comment and an empty line between them. -/
def twoLines : String := "2x=-w#\n\nu=0"

def twoLinesEquations : List Equation :=
  [⟨[⟨false, some "2", ["x"]⟩], some ⟨true, "w"⟩, some 1⟩, ⟨[⟨false, none, ["u"]⟩], none, some 3⟩]

/-- The line feeds are lexemes of their own. -/
theorem derives_twoLines : Derives twoLines.toList twoLinesEquations := by
  refine ⟨[onLine 1 .digits ['2'], onLine 1 .word ['x'], onLine 1 .equals ['='],
    onLine 1 .sign ['-'], onLine 1 .word ['w'], onLine 1 .newlines ['\n'],
    onLine 2 .newlines ['\n'], onLine 3 .word ['u'], onLine 3 .equals ['='],
    onLine 3 .zero ['0']], ?_, ?_⟩
  · have htext : withoutComments false twoLines.toList =
        ['2', 'x', '=', '-', 'w', '\n', '\n', 'u', '=', '0'] := by decide +kernel
    have hword {c : Char} (h : Lexeme.isLetter c = true) : LexemeKind.word.Spells [c] :=
      ⟨c, [], rfl, h, by simp⟩
    have hdigit : LexemeKind.digits.Spells ['2'] := ⟨by simp, List.forall_mem_singleton.mpr rfl⟩
    have hfeed : LexemeKind.newlines.Spells ['\n'] := ⟨by simp, by simp⟩
    rw [htext]
    refine .lexeme (l := onLine 1 .digits ['2']) hdigit rfl ?_
    refine .lexeme (l := onLine 1 .word ['x']) (hword rfl) rfl ?_
    refine .lexeme (l := onLine 1 .equals ['=']) rfl rfl ?_
    refine .lexeme (l := onLine 1 .sign ['-']) (Or.inr rfl) rfl ?_
    refine .lexeme (l := onLine 1 .word ['w']) (hword rfl) rfl ?_
    refine .lexeme (l := onLine 1 .newlines ['\n']) hfeed rfl ?_
    refine .lexeme (l := onLine 2 .newlines ['\n']) hfeed rfl ?_
    refine .lexeme (l := onLine 3 .word ['u']) (hword rfl) rfl ?_
    refine .lexeme (l := onLine 3 .equals ['=']) rfl rfl ?_
    exact .lexeme (l := onLine 3 .zero ['0']) rfl rfl (.nil (by simp))
  · refine program_iff.mpr ⟨⟨.complete, ?_, rfl⟩, by decide +kernel⟩
    iterate 10 refine .cons rfl ?_
    exact .nil .complete

theorem parse_iff_derives_twoLines :
    Derives twoLines.toList twoLinesEquations ∧ parse twoLines = .ok twoLinesEquations :=
  ⟨derives_twoLines, (parse_iff_derives twoLines).2 _ derives_twoLines⟩

end Equation

end PlonkGates
