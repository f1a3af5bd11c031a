import PlonkGates.Proofs.Stages

/-!
# Sentences are read to their end

Every rule of the grammar leads the reader from one stage to another, and what is gathered from the
lexemes of a sentence is what was derived. So the machine accepts exactly the sentences of the
grammar, and every sentence stands for one list of equations (`program_iff`).
-/

namespace PlonkGates

namespace Grammar

open Equation (signedTerms termsOf rightOf ofTokens isSeparator runs listOfTokens)
open Stage (Leads)

/-! ## Stages -/

theorem Coefficient.leads {ls : List Lexeme} {c : Option String} (h : Coefficient ls c) :
    ∃ stage, Leads .sign ls stage ∧ stage.next .word = some .factor := by
  cases h with
  | absent => exact ⟨.sign, .nil .sign, rfl⟩
  | plain hc => exact ⟨.coefficient, .single (by rw [hc]; rfl), rfl⟩
  | starred hc hstar =>
    exact ⟨.coefficientStar, .cons (by rw [hc]; rfl) (.single (by rw [hstar]; rfl)), rfl⟩

/-- A term ends where another one, or the right side, may follow. -/
def isTermEnd (stage : Stage) : Prop :=
  stage.next .sign = some .sign ∧ stage.next .equals = some .equals

theorem Factors.leads {ls : List Lexeme} {names : List String} (h : Factors ls names)
    {stage : Stage} (hstage : stage.next .word = some .factor) :
    ∃ last, Leads stage ls last ∧ isTermEnd last := by
  cases h with
  | linear hx => exact ⟨.factor, .single (by rw [hx, hstage]), rfl, rfl⟩
  | quadratic hx hstar hy =>
    refine ⟨.product, ?_, rfl, rfl⟩
    exact .cons (by rw [hx, hstage]) (.cons (by rw [hstar]; rfl) (.single (by rw [hy]; rfl)))

theorem Term.leads {ls : List Lexeme} {c : Option String} {names : List String}
    (h : Term ls c names) : ∃ last, Leads .sign ls last ∧ isTermEnd last := by
  obtain ⟨hc, hf⟩ := h
  obtain ⟨stage, hstage, hword⟩ := hc.leads
  obtain ⟨last, hlast, hend⟩ := hf.leads hword
  exact ⟨last, hstage.append hlast, hend⟩

theorem SignedTerms.leads {ls : List Lexeme} {terms : List Equation.Term}
    (h : SignedTerms ls terms) {stage : Stage} (hstage : isTermEnd stage) :
    ∃ last, Leads stage ls last ∧ isTermEnd last := by
  induction h generalizing stage with
  | nil => exact ⟨stage, .nil stage, hstage⟩
  | cons hs ht _ ih =>
    obtain ⟨middle, hmiddle, hend⟩ := ht.leads
    obtain ⟨last, hlast, hend⟩ := ih hend
    exact ⟨last, .cons (by rw [hs]; exact hstage.1) (hmiddle.append hlast), hend⟩

/-- A term may also start an equation. -/
theorem leads_start {ls : List Lexeme} {last : Stage} (h : Leads .sign ls last) (hne : ls ≠ []) :
    Leads .start ls last := by
  cases h with
  | nil => exact absurd rfl hne
  | cons hl hls =>
    refine .cons ?_ hls
    rcases Stage.next_sign.mp hl with ⟨hk, rfl⟩ | ⟨hk, rfl⟩
    · exact Stage.next_start.mpr (Or.inr (Or.inl ⟨hk, rfl⟩))
    · exact Stage.next_start.mpr (Or.inr (Or.inr (Or.inl ⟨hk, rfl⟩)))

theorem Left.leads {ls : List Lexeme} {terms : List Equation.Term} (h : Left ls terms) :
    ∃ last, Leads .start ls last ∧ isTermEnd last := by
  cases h with
  | unsigned ht hrest =>
    obtain ⟨middle, hmiddle, hend⟩ := ht.leads
    obtain ⟨last, hlast, hend⟩ := hrest.leads hend
    exact ⟨last, (leads_start hmiddle ht.ne_nil.1).append hlast, hend⟩
  | signed hs ht hrest =>
    obtain ⟨middle, hmiddle, hend⟩ := ht.leads
    obtain ⟨last, hlast, hend⟩ := hrest.leads hend
    exact ⟨last, .cons (by rw [hs]; rfl) (hmiddle.append hlast), hend⟩

theorem Right.leads {ls : List Lexeme} {rhs : Option PublicTerm} (h : Right ls rhs) :
    Leads .equals ls .complete := by
  cases h with
  | zero hz => exact .single (by rw [hz]; rfl)
  | plain hx => exact .single (by rw [hx]; rfl)
  | signed hs hx => exact .cons (by rw [hs]; rfl) (.single (by rw [hx]; rfl))

theorem Statement.leads {ls : List Lexeme} {e : Equation} (h : Statement ls e) :
    Leads .start ls .complete := by
  obtain ⟨hleft, -, heq, hright⟩ := h
  obtain ⟨last, hlast, hend⟩ := hleft.leads
  exact hlast.append (.cons (by rw [heq]; exact hend.2) hright.leads)

/-! What is gathered from the lexemes of a sentence is what was derived. -/

theorem Factors.signedTerms {ls rest : List Lexeme} {names : List String}
    {terms : List Equation.Term} (h : Factors ls names)
    (hrest : signedTerms rest = (⟨none, []⟩, terms)) :
    signedTerms (ls ++ rest) = (⟨none, names⟩, terms) := by
  cases h with
  | linear hx => simp [signedTerms_cons, hx, addPart_word, hrest]
  | quadratic hx hstar hy =>
    simp [signedTerms_cons, hx, hstar, hy, addPart_word, addPart_star, hrest]

theorem Coefficient.signedTerms {ls rest : List Lexeme} {c : Option String} {names : List String}
    {terms : List Equation.Term} (h : Coefficient ls c)
    (hrest : Equation.signedTerms rest = (⟨none, names⟩, terms)) :
    Equation.signedTerms (ls ++ rest) = (⟨c, names⟩, terms) := by
  cases h with
  | absent => exact hrest
  | plain hc => simp [signedTerms_cons, hc, addPart_digits, hrest]
  | starred hc hstar =>
    simp [signedTerms_cons, hc, hstar, addPart_digits, addPart_star, hrest]

theorem Term.signedTerms {ls rest : List Lexeme} {c : Option String} {names : List String}
    {terms : List Equation.Term} (h : Term ls c names)
    (hrest : Equation.signedTerms rest = (⟨none, []⟩, terms)) :
    Equation.signedTerms (ls ++ rest) = (⟨c, names⟩, terms) := by
  obtain ⟨hc, hf⟩ := h
  rw [List.append_assoc]
  exact hc.signedTerms (hf.signedTerms hrest)

theorem SignedTerms.signedTerms {ls : List Lexeme} {terms : List Equation.Term}
    (h : SignedTerms ls terms) : Equation.signedTerms ls = (⟨none, []⟩, terms) := by
  induction h with
  | nil => rfl
  | cons hs ht _ ih => rw [signedTerms_sign hs, ht.signedTerms ih]

theorem Left.termsOf {ls : List Lexeme} {terms : List Equation.Term} (h : Left ls terms) :
    Equation.termsOf ls = terms := by
  cases h with
  | unsigned ht hrest => exact termsOf_unsigned (ht.signedTerms hrest.signedTerms) ht.ne_nil.2
  | signed hs ht hrest => exact termsOf_signed (SignedTerms.cons hs ht hrest).signedTerms

theorem Right.rightOf {ls : List Lexeme} {rhs : Option PublicTerm} (h : Right ls rhs) :
    Equation.rightOf ls = rhs := by
  cases h with
  | zero hz => simp [Equation.rightOf, hz]
  | plain hx => simp [Equation.rightOf, hx, Lexeme.name]
  | signed hs hx => simp [Equation.rightOf, hs, hx, Lexeme.name, Lexeme.isMinus]

/-! An equation holds no separator, and its left side no equals sign. -/

/-- A lexeme that may stand on a left side. -/
def InLeft (l : Lexeme) : Prop := l.kind ≠ .equals ∧ isSeparator l = false

theorem Term.inLeft {ls : List Lexeme} {c : Option String} {names : List String}
    (h : Term ls c names) : ∀ l ∈ ls, InLeft l := by
  obtain ⟨hc, hf⟩ := h
  cases hc <;> cases hf <;> simp_all [InLeft, isSeparator]

theorem inLeft_sign {s : Lexeme} (hs : s.kind = .sign) : InLeft s := by
  simp [InLeft, isSeparator, hs]

theorem SignedTerms.inLeft {ls : List Lexeme} {terms : List Equation.Term}
    (h : SignedTerms ls terms) : ∀ l ∈ ls, InLeft l := by
  induction h with
  | nil => simp
  | cons hs ht _ ih =>
    exact List.forall_mem_cons.mpr ⟨inLeft_sign hs, List.forall_mem_append.mpr ⟨ht.inLeft, ih⟩⟩

theorem Left.inLeft {ls : List Lexeme} {terms : List Equation.Term} (h : Left ls terms) :
    ∀ l ∈ ls, InLeft l := by
  cases h with
  | unsigned ht hrest => exact List.forall_mem_append.mpr ⟨ht.inLeft, hrest.inLeft⟩
  | signed hs ht hrest => exact (SignedTerms.cons hs ht hrest).inLeft

theorem Right.not_separator {ls : List Lexeme} {rhs : Option PublicTerm} (h : Right ls rhs) :
    ∀ l ∈ ls, isSeparator l = false := by
  cases h <;> simp_all [isSeparator]

theorem Statement.not_separator {ls : List Lexeme} {e : Equation} (h : Statement ls e) :
    ∀ l ∈ ls, isSeparator l = false := by
  obtain ⟨hleft, -, heq, hright⟩ := h
  refine List.forall_mem_append.mpr ⟨fun l hl => (hleft.inLeft l hl).2, ?_⟩
  exact List.forall_mem_cons.mpr ⟨by simp [isSeparator, heq], hright.not_separator⟩

theorem Statement.ofTokens {ls : List Lexeme} {e : Equation} (h : Statement ls e) :
    Equation.ofTokens ls = e := by
  obtain ⟨hleft, hfirst, heq, hright⟩ := h
  rw [ofTokens_append hfirst (fun l hl => (hleft.inLeft l hl).1) heq, hleft.termsOf, hright.rightOf]

theorem Statement.ne_nil {ls : List Lexeme} {e : Equation} (h : Statement ls e) : ls ≠ [] := by
  obtain ⟨-, -, -, -⟩ := h
  simp

/-! Separators between equations, however many they are, cut a program into its equations. -/

theorem allRuns_separators {seps : List Lexeme} (h : Separators seps) (rest : List Lexeme) :
    allRuns (seps ++ rest) = allRuns rest := by
  induction seps with
  | nil => rfl
  | cons sep seps ih =>
    obtain ⟨hsep, hseps⟩ := List.forall_mem_cons.mp h
    rw [List.cons_append, allRuns, runs_separator (isSeparator_iff.mpr hsep), ih hseps]
    rfl

theorem runs_append {ls : List Lexeme} (h : ∀ l ∈ ls, isSeparator l = false)
    (rest : List Lexeme) : runs (ls ++ rest) = (ls ++ (runs rest).1, (runs rest).2) := by
  induction ls with
  | nil => rfl
  | cons l ls ih =>
    obtain ⟨hl, hls⟩ := List.forall_mem_cons.mp h
    rw [List.cons_append, runs_cons hl, ih hls]
    rfl

/-- An equation in front of separators is a run of its own. -/
theorem Statement.allRuns {ls seps : List Lexeme} {e : Equation} (h : Statement ls e)
    (hne : seps ≠ []) (hseps : Separators seps) (rest : List Lexeme) :
    Grammar.allRuns (ls ++ (seps ++ rest)) = ls :: Grammar.allRuns rest := by
  obtain ⟨sep, seps, rfl⟩ := List.exists_cons_of_ne_nil hne
  obtain ⟨hsep, hseps⟩ := List.forall_mem_cons.mp hseps
  rw [Grammar.allRuns, runs_append h.not_separator, List.cons_append,
    runs_separator (isSeparator_iff.mpr hsep), allRuns_separators hseps]
  simp [h.ne_nil]

theorem Separators.leads {seps : List Lexeme} (h : Separators seps) : Leads .start seps .start := by
  induction seps with
  | nil => exact .nil .start
  | cons sep seps ih =>
    obtain ⟨hsep, hseps⟩ := List.forall_mem_cons.mp h
    exact .cons (Stage.next_start.mpr (Or.inr (Or.inr (Or.inr ⟨hsep, rfl⟩)))) (ih hseps)

theorem Body.leads {ls : List Lexeme} {es : List Equation} (h : Body ls es) :
    ∃ last, Leads .start ls last ∧ last.isFinal = true := by
  induction h with
  | nil => exact ⟨.start, .nil .start, rfl⟩
  | last he => exact ⟨.complete, he.leads, rfl⟩
  | cons he hne hseps _ ih =>
    obtain ⟨sep, seps, rfl⟩ := List.exists_cons_of_ne_nil hne
    obtain ⟨hsep, hseps⟩ := List.forall_mem_cons.mp hseps
    obtain ⟨last, hlast, hfinal⟩ := ih
    have hnext : Stage.complete.next sep.kind = some .start :=
      Stage.next_complete.mpr ⟨hsep, rfl⟩
    exact ⟨last, he.leads.append (.cons hnext ((Separators.leads hseps).append hlast)), hfinal⟩

theorem Body.listOfTokens {ls : List Lexeme} {es : List Equation} (h : Body ls es) :
    Equation.listOfTokens ls = es := by
  rw [listOfTokens_eq]
  induction h with
  | nil => rfl
  | last he =>
    have hruns := runs_append he.not_separator []
    simp only [List.append_nil] at hruns
    rw [allRuns, hruns]
    simp [runs, he.ne_nil, he.ofTokens]
  | cons he hne hseps _ ih => rw [he.allRuns hne hseps, List.map_cons, he.ofTokens, ih]

/-- **The machine accepts the sentences of the grammar, and gathers what is derived.** -/
theorem program_iff {ls : List Lexeme} {es : List Equation} :
    Program ls es ↔
      (∃ last, Leads .start ls last ∧ last.isFinal = true) ∧ listOfTokens ls = es := by
  constructor
  · rintro ⟨hseps, hbody⟩
    obtain ⟨last, hlast, hfinal⟩ := hbody.leads
    refine ⟨⟨last, hseps.leads.append hlast, hfinal⟩, ?_⟩
    rw [listOfTokens_eq, allRuns_separators hseps, ← listOfTokens_eq, hbody.listOfTokens]
  · rintro ⟨⟨last, hlast, hfinal⟩, rfl⟩
    exact (cut_of_leads hlast hfinal).program

end Grammar

end PlonkGates
