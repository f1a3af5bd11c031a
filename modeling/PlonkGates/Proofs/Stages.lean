import PlonkGates.Equation.Parser
import PlonkGates.Proofs.Grammar

/-!
# Stages of the reader and sentences

The reader of programs is a machine that goes from stage to stage, and equations are gathered from
its tokens afterwards. Here its paths are taken apart: a path through an equation is a sentence for
the equation that is gathered (`statement_of_leads`), and a path to a stage where a program may end
is cut into such paths by separators (`cut_of_leads`).

`Pending` says for each stage of a left side what is still to come of an equation. Each step of the
machine takes one lexeme off it.
-/

namespace PlonkGates

/-! ## Paths of the machine -/

/-- Lexemes lead from a stage to another one. -/
inductive Stage.Leads : Stage → List Lexeme → Stage → Prop where
  | nil (stage : Stage) : Leads stage [] stage
  | cons {stage next last : Stage} {l : Lexeme} {ls : List Lexeme}
      (hl : stage.next l.kind = some next) (hls : Leads next ls last) : Leads stage (l :: ls) last

namespace Stage.Leads

variable {stage middle last : Stage} {ls rest : List Lexeme} {l : Lexeme}

theorem append (h : Leads stage ls middle) (hrest : Leads middle rest last) :
    Leads stage (ls ++ rest) last := by
  induction h with
  | nil => exact hrest
  | cons hl _ ih => exact .cons hl (ih hrest)

theorem single (h : stage.next l.kind = some last) : Leads stage [l] last := .cons h (.nil last)

end Stage.Leads

/-! What each stage allows, and where it leads. -/

namespace Stage

variable {k : LexemeKind} {next : Stage}

theorem next_start : start.next k = some next ↔
    (k = .sign ∧ next = .sign) ∨ (k = .digits ∧ next = .coefficient) ∨
      (k = .word ∧ next = .factor) ∨ ((k = .newlines ∨ k = .semicolon) ∧ next = .start) := by
  cases k <;> cases next <;> decide

theorem next_sign : sign.next k = some next ↔
    (k = .digits ∧ next = .coefficient) ∨ (k = .word ∧ next = .factor) := by
  cases k <;> cases next <;> decide

theorem next_coefficient : coefficient.next k = some next ↔
    (k = .star ∧ next = .coefficientStar) ∨ (k = .word ∧ next = .factor) := by
  cases k <;> cases next <;> decide

theorem next_coefficientStar : coefficientStar.next k = some next ↔
    k = .word ∧ next = .factor := by
  cases k <;> cases next <;> decide

theorem next_factor : factor.next k = some next ↔
    (k = .star ∧ next = .factorStar) ∨ (k = .sign ∧ next = .sign) ∨
      (k = .equals ∧ next = .equals) := by
  cases k <;> cases next <;> decide

theorem next_factorStar : factorStar.next k = some next ↔ k = .word ∧ next = .product := by
  cases k <;> cases next <;> decide

theorem next_product : product.next k = some next ↔
    (k = .sign ∧ next = .sign) ∨ (k = .equals ∧ next = .equals) := by
  cases k <;> cases next <;> decide

theorem next_equals : equals.next k = some next ↔
    (k = .sign ∧ next = .rightSign) ∨ ((k = .word ∨ k = .zero) ∧ next = .complete) := by
  cases k <;> cases next <;> decide

theorem next_rightSign : rightSign.next k = some next ↔ k = .word ∧ next = .complete := by
  cases k <;> cases next <;> decide

theorem next_complete : complete.next k = some next ↔
    (k = .newlines ∨ k = .semicolon) ∧ next = .start := by
  cases k <;> cases next <;> decide

/-- A separator stands where a program may end, and starts an equation. -/
theorem next_of_separator {stage : Stage} (hk : k = .newlines ∨ k = .semicolon)
    (h : stage.next k = some next) : stage.isFinal = true ∧ next = .start := by
  rcases hk with rfl | rfl <;> cases stage <;> simp_all [Stage.next, isFinal]

/-- Nothing but a separator leads to the start of an equation. -/
theorem separator_of_next {stage : Stage} (h : stage.next k = some .start) :
    k = .newlines ∨ k = .semicolon := by
  cases k <;> cases stage <;> simp_all [Stage.next]

end Stage

namespace Grammar

open Equation (signedTerms termsOf rightOf ofTokens isSeparator runs listOfTokens TermParts)
open Stage (Leads)

theorem name_beq_minus (l : Lexeme) : (String.ofList l.text == "-") = l.isMinus := by
  have hminus : "-" = String.ofList ['-'] := rfl
  rw [Bool.eq_iff_iff, beq_iff_eq, Lexeme.isMinus, beq_iff_eq, hminus, String.ofList_inj]

/-! ## From stages to sentences -/

/-- The parts of a term with a further lexeme in front of them. -/
def addPart (l : Lexeme) (parts : TermParts) : TermParts :=
  match l.kind with
  | .digits => { parts with coefficient := some l.name }
  | .word => { parts with factors := l.name :: parts.factors }
  | _ => parts

section AddPart

variable {l : Lexeme} {parts : TermParts}

theorem addPart_digits (h : l.kind = .digits) :
    addPart l parts = ⟨some l.name, parts.factors⟩ := by
  rw [addPart, h]

theorem addPart_word (h : l.kind = .word) :
    addPart l parts = ⟨parts.coefficient, l.name :: parts.factors⟩ := by
  rw [addPart, h]

theorem addPart_star (h : l.kind = .star) : addPart l parts = parts := by
  rw [addPart, h]

end AddPart

theorem signedTerms_cons {l : Lexeme} (hl : l.kind ≠ .sign) (ls : List Lexeme) :
    signedTerms (l :: ls) = (addPart l (signedTerms ls).1, (signedTerms ls).2) := by
  rw [signedTerms, addPart]
  cases hk : l.kind <;> first | rfl | exact absurd hk hl

theorem signedTerms_sign {l : Lexeme} (hl : l.kind = .sign) (ls : List Lexeme) :
    signedTerms (l :: ls) = (⟨none, []⟩,
      ⟨l.isMinus, (signedTerms ls).1.coefficient, (signedTerms ls).1.factors⟩ ::
        (signedTerms ls).2) := by
  simp only [signedTerms, hl, name_beq_minus]

/-- What of a term is still to come at a stage, with the parts that are in it. -/
def TermRest : Stage → List Lexeme → TermParts → Prop
  | .sign, ls, parts => Term ls parts.coefficient parts.factors
  | .coefficient, ls, parts => parts.coefficient = none ∧
      (Factors ls parts.factors ∨
        ∃ star rest, ls = star :: rest ∧ star.kind = .star ∧ Factors rest parts.factors)
  | .coefficientStar, ls, parts => parts.coefficient = none ∧ Factors ls parts.factors
  | .factor, ls, parts => parts.coefficient = none ∧
      ((ls = [] ∧ parts.factors = []) ∨
        ∃ star y, ls = [star, y] ∧ star.kind = .star ∧ y.kind = .word ∧ parts.factors = [y.name])
  | .factorStar, ls, parts => parts.coefficient = none ∧
      ∃ y, ls = [y] ∧ y.kind = .word ∧ parts.factors = [y.name]
  | .product, ls, parts => parts.coefficient = none ∧ ls = [] ∧ parts.factors = []
  | _, _, _ => False

/-- What of an equation is still to come on its left side: the rest of a term, further terms, and
the right side. -/
def Pending (stage : Stage) (ls : List Lexeme) : Prop :=
  ∃ head tail eq right, ls = head ++ (tail ++ eq :: right) ∧
    (∀ l ∈ head ++ tail, l.kind ≠ .equals) ∧ TermRest stage head (signedTerms (head ++ tail)).1 ∧
    SignedTerms tail (signedTerms (head ++ tail)).2 ∧ eq.kind = .equals ∧
    Right right (rightOf right)

section Steps

variable {stage next : Stage} {l : Lexeme} {ls : List Lexeme}

/-- A lexeme of a term is taken off the rest of the term. -/
theorem Pending.cons (hsign : l.kind ≠ .sign) (hequals : l.kind ≠ .equals) (h : Pending next ls)
    (hstep : ∀ head parts, TermRest next head parts →
      TermRest stage (l :: head) (addPart l parts)) :
    Pending stage (l :: ls) := by
  obtain ⟨head, tail, eq, right, rfl, hnone, hterm, hterms, heq, hright⟩ := h
  refine ⟨l :: head, tail, eq, right, rfl, ?_, ?_, ?_, heq, hright⟩
  · exact List.forall_mem_cons.mpr ⟨hequals, hnone⟩
  · rw [List.cons_append, signedTerms_cons hsign]
    exact hstep head _ hterm
  · rw [List.cons_append, signedTerms_cons hsign]
    exact hterms

/-- A word is a term, or it is multiplied with another one. -/
theorem Pending.word (hl : l.kind = .word) (h : Pending .factor ls)
    (hterm : ∀ parts names, parts.coefficient = none → Factors names parts.factors →
      TermRest stage names parts) : Pending stage (l :: ls) := by
  refine h.cons (by simp [hl]) (by simp [hl]) ?_
  rintro head parts ⟨hnone, ⟨rfl, hf⟩ | ⟨star, y, rfl, hstar, hy, hf⟩⟩
  · rw [addPart_word hl, hf]
    exact hterm _ _ hnone (.linear hl)
  · rw [addPart_word hl, hf]
    exact hterm _ _ hnone (.quadratic hl hstar hy)

/-- A sign ends a term and starts another one. -/
theorem Pending.sign (hl : l.kind = .sign) (h : Pending .sign ls)
    (hend : TermRest stage [] ⟨none, []⟩) : Pending stage (l :: ls) := by
  obtain ⟨head, tail, eq, right, rfl, hnone, hterm, hterms, heq, hright⟩ := h
  refine ⟨[], l :: (head ++ tail), eq, right, by simp, ?_, ?_, ?_, heq, hright⟩
  · exact List.forall_mem_cons.mpr ⟨by rw [hl]; decide, hnone⟩
  · rw [List.nil_append, signedTerms_sign hl]
    exact hend
  · rw [List.nil_append, signedTerms_sign hl]
    exact .cons hl hterm hterms

/-- An equals sign ends the last term. -/
theorem Pending.equals (hl : l.kind = .equals) (h : Right ls (rightOf ls))
    (hend : TermRest stage [] ⟨none, []⟩) : Pending stage (l :: ls) :=
  ⟨[], [], l, ls, rfl, by simp, hend, .nil, hl, h⟩

end Steps

/-- The stages inside of a left side, after its first lexeme. -/
def onLeft : Stage → Bool
  | .sign | .coefficient | .coefficientStar | .factor | .factorStar | .product => true
  | _ => false

theorem isSeparator_iff {l : Lexeme} :
    isSeparator l = true ↔ l.kind = .newlines ∨ l.kind = .semicolon := by
  simp [isSeparator]

theorem isSeparator_eq_false_iff {l : Lexeme} :
    isSeparator l = false ↔ ¬ (l.kind = .newlines ∨ l.kind = .semicolon) := by
  rw [← Bool.not_eq_true, isSeparator_iff]

/-- Outside of separators, nothing follows a complete equation. -/
theorem eq_nil_of_leads {ls : List Lexeme} (h : Leads .complete ls .complete)
    (hsep : ∀ l ∈ ls, isSeparator l = false) : ls = [] := by
  cases h with
  | nil => rfl
  | cons hl _ =>
    have hno := isSeparator_eq_false_iff.mp (hsep _ List.mem_cons_self)
    exact absurd (Stage.next_complete.mp hl).1 hno

theorem right_of_leads {ls : List Lexeme} (h : Leads .equals ls .complete)
    (hsep : ∀ l ∈ ls, isSeparator l = false) : Right ls (rightOf ls) := by
  cases h with
  | cons hl hrest =>
    have hrestSep := (List.forall_mem_cons.mp hsep).2
    rcases Stage.next_equals.mp hl with ⟨hs, rfl⟩ | ⟨hword | hzero, rfl⟩
    · cases hrest with
      | cons hx hrest =>
        obtain ⟨hword, rfl⟩ := Stage.next_rightSign.mp hx
        obtain rfl := eq_nil_of_leads hrest (List.forall_mem_cons.mp hrestSep).2
        simp only [rightOf, hs, hword]
        exact .signed hs hword
    · obtain rfl := eq_nil_of_leads hrest hrestSep
      simp only [rightOf, hword]
      exact .plain hword
    · obtain rfl := eq_nil_of_leads hrest hrestSep
      simp only [rightOf, hzero]
      exact .zero hzero

/-- **What leads from a stage of a left side to a complete equation is what is still to come.** -/
theorem pending_of_leads {stage : Stage} {ls : List Lexeme} (h : Leads stage ls .complete)
    (hsep : ∀ l ∈ ls, isSeparator l = false) (hstage : onLeft stage = true) :
    Pending stage ls := by
  induction ls generalizing stage with
  | nil => cases h; cases hstage
  | cons l ls ih =>
    cases h with
    | cons hl hls =>
      have hrest := (List.forall_mem_cons.mp hsep).2
      cases stage with
      | sign =>
        rcases Stage.next_sign.mp hl with ⟨hk, rfl⟩ | ⟨hk, rfl⟩
        · refine (ih hls hrest rfl).cons (by simp [hk]) (by simp [hk]) ?_
          rintro head parts ⟨-, hf | ⟨star, rest, rfl, hstar, hf⟩⟩
          · rw [addPart_digits hk]
            exact Term.mk (.plain hk) hf
          · rw [addPart_digits hk]
            exact Term.mk (.starred hk hstar) hf
        · refine (ih hls hrest rfl).word hk fun parts names hnone hf => ?_
          show Term names parts.coefficient parts.factors
          rw [hnone]
          exact Term.mk .absent hf
      | coefficient =>
        rcases Stage.next_coefficient.mp hl with ⟨hk, rfl⟩ | ⟨hk, rfl⟩
        · refine (ih hls hrest rfl).cons (by simp [hk]) (by simp [hk]) ?_
          rintro head parts ⟨hnone, hf⟩
          rw [addPart_star hk]
          exact ⟨hnone, Or.inr ⟨l, head, rfl, hk, hf⟩⟩
        · exact (ih hls hrest rfl).word hk fun parts names hnone hf => ⟨hnone, Or.inl hf⟩
      | coefficientStar =>
        obtain ⟨hk, rfl⟩ := Stage.next_coefficientStar.mp hl
        exact (ih hls hrest rfl).word hk fun parts names hnone hf => ⟨hnone, hf⟩
      | factor =>
        rcases Stage.next_factor.mp hl with ⟨hk, rfl⟩ | ⟨hk, rfl⟩ | ⟨hk, rfl⟩
        · refine (ih hls hrest rfl).cons (by simp [hk]) (by simp [hk]) ?_
          rintro head parts ⟨hnone, y, rfl, hy, hf⟩
          rw [addPart_star hk]
          exact ⟨hnone, Or.inr ⟨l, y, rfl, hk, hy, hf⟩⟩
        · exact (ih hls hrest rfl).sign hk ⟨rfl, Or.inl ⟨rfl, rfl⟩⟩
        · exact .equals hk (right_of_leads hls hrest) ⟨rfl, Or.inl ⟨rfl, rfl⟩⟩
      | factorStar =>
        obtain ⟨hk, rfl⟩ := Stage.next_factorStar.mp hl
        refine (ih hls hrest rfl).cons (by simp [hk]) (by simp [hk]) ?_
        rintro head parts ⟨hnone, rfl, hf⟩
        rw [addPart_word hk, hf]
        exact ⟨hnone, l, rfl, hk, rfl⟩
      | product =>
        rcases Stage.next_product.mp hl with ⟨hk, rfl⟩ | ⟨hk, rfl⟩
        · exact (ih hls hrest rfl).sign hk ⟨rfl, rfl, rfl⟩
        · exact .equals hk (right_of_leads hls hrest) ⟨rfl, rfl, rfl⟩
      | start | equals | rightSign | complete => cases hstage

theorem Term.ne_nil {ls : List Lexeme} {c : Option String} {names : List String}
    (h : Term ls c names) : ls ≠ [] ∧ names ≠ [] := by
  obtain ⟨hc, hf⟩ := h
  cases hf <;> simp

theorem Left.exists_first {ls : List Lexeme} {terms : List Equation.Term} (h : Left ls terms) :
    ∃ first, ls.head? = some first := by
  cases h with
  | unsigned ht =>
    obtain ⟨l, ls, rfl⟩ := List.exists_cons_of_ne_nil ht.ne_nil.1
    exact ⟨l, rfl⟩
  | signed => exact ⟨_, rfl⟩

/-- The left side ends at the first equals sign. -/
theorem ofTokens_append {left right : List Lexeme} {first eq : Lexeme}
    (hfirst : left.head? = some first) (hleft : ∀ l ∈ left, l.kind ≠ .equals)
    (heq : eq.kind = .equals) :
    ofTokens (left ++ eq :: right) =
      ⟨termsOf left, rightOf right, some (first.start.line : Int)⟩ := by
  have hpos : ∀ l ∈ left, decide (l.kind ≠ .equals) = true := by simpa using hleft
  have htake : (left ++ eq :: right).takeWhile (fun l => decide (l.kind ≠ .equals)) = left := by
    rw [List.takeWhile_append_of_pos hpos, List.takeWhile_cons]
    simp [heq]
  have hdrop : (left ++ eq :: right).dropWhile (fun l => decide (l.kind ≠ .equals)) =
      eq :: right := by
    rw [List.dropWhile_append_of_pos hpos, List.dropWhile_cons]
    simp [heq]
  have hhead : (left ++ eq :: right).head? = some first := by
    rw [List.head?_append, hfirst]
    rfl
  rw [ofTokens, htake, hdrop, hhead]
  rfl

/-- Terms before the first sign make a term without a sign. -/
theorem termsOf_unsigned {ls : List Lexeme} {parts : TermParts} {terms : List Equation.Term}
    (h : signedTerms ls = (parts, terms)) (hne : parts.factors ≠ []) :
    termsOf ls = ⟨false, parts.coefficient, parts.factors⟩ :: terms := by
  simp [termsOf, h, hne]

theorem termsOf_signed {ls : List Lexeme} {terms : List Equation.Term}
    (h : signedTerms ls = (⟨none, []⟩, terms)) : termsOf ls = terms := by
  simp [termsOf, h]

/-- A left side and a right side make an equation. -/
theorem Left.statement {left right : List Lexeme} {eq : Lexeme} (hleft : Left left (termsOf left))
    (hnone : ∀ l ∈ left, l.kind ≠ .equals) (heq : eq.kind = .equals)
    (hright : Right right (rightOf right)) :
    Statement (left ++ eq :: right) (ofTokens (left ++ eq :: right)) := by
  obtain ⟨first, hfirst⟩ := hleft.exists_first
  rw [ofTokens_append hfirst hnone heq]
  exact .mk hleft hfirst heq hright

/-- Without a sign in front, an equation goes on as it does after one. -/
theorem leads_sign {l : Lexeme} {ls : List Lexeme} {last : Stage} (h : Leads .start (l :: ls) last)
    (hsign : l.kind ≠ .sign) (hsep : isSeparator l = false) : Leads .sign (l :: ls) last := by
  cases h with
  | cons hl hls =>
    refine .cons ?_ hls
    rcases Stage.next_start.mp hl with ⟨hk, -⟩ | ⟨hk, rfl⟩ | ⟨hk, rfl⟩ | ⟨hk, -⟩
    · exact absurd hk hsign
    · exact Stage.next_sign.mpr (Or.inl ⟨hk, rfl⟩)
    · exact Stage.next_sign.mpr (Or.inr ⟨hk, rfl⟩)
    · exact absurd hk (isSeparator_eq_false_iff.mp hsep)

/-- **What leads through an equation is a sentence for it.** -/
theorem statement_of_leads {ls : List Lexeme} (h : Leads .start ls .complete)
    (hsep : ∀ l ∈ ls, isSeparator l = false) : Statement ls (ofTokens ls) := by
  cases ls with
  | nil => cases h
  | cons l ls =>
    obtain ⟨hl, hls⟩ := List.forall_mem_cons.mp hsep
    by_cases hsign : l.kind = .sign
    · have hrest : Leads .sign ls .complete := by
        cases h with
        | cons hnext hrest =>
          rw [hsign] at hnext
          cases hnext
          exact hrest
      obtain ⟨head, tail, eq, right, rfl, hnone, hterm, hterms, heq, hright⟩ :=
        pending_of_leads hrest hls rfl
      have hleft := Left.signed hsign hterm hterms
      rw [← termsOf_signed (signedTerms_sign hsign _)] at hleft
      have hfirst : l.kind ≠ .equals := by simp [hsign]
      rw [← List.append_assoc]
      exact hleft.statement (List.forall_mem_cons.mpr ⟨hfirst, hnone⟩) heq hright
    · obtain ⟨head, tail, eq, right, heqs, hnone, hterm, hterms, heq, hright⟩ :=
        pending_of_leads (leads_sign h hsign hl) hsep rfl
      have hleft := Left.unsigned hterm hterms
      rw [← termsOf_unsigned rfl hterm.ne_nil.2] at hleft
      rw [heqs, ← List.append_assoc]
      exact hleft.statement hnone heq hright

/-! ## Runs between separators -/

/-- The runs that equations are made of: the first one counts if it is not empty. -/
def allRuns (ls : List Lexeme) : List (List Lexeme) :=
  if (runs ls).1.isEmpty then (runs ls).2 else (runs ls).1 :: (runs ls).2

theorem listOfTokens_eq (ls : List Lexeme) : listOfTokens ls = (allRuns ls).map ofTokens := rfl

theorem runs_separator {l : Lexeme} (hl : isSeparator l = true) (ls : List Lexeme) :
    runs (l :: ls) = ([], allRuns ls) := by
  rw [runs, allRuns]
  simp [hl]

theorem runs_cons {l : Lexeme} (hl : isSeparator l = false) (ls : List Lexeme) :
    runs (l :: ls) = (l :: (runs ls).1, (runs ls).2) := by
  rw [runs]
  simp [hl]

theorem not_separator_runs (ls : List Lexeme) : ∀ l ∈ (runs ls).1, isSeparator l = false := by
  induction ls with
  | nil => simp [runs]
  | cons l ls ih =>
    cases hl : isSeparator l with
    | true => rw [runs_separator hl]; simp
    | false =>
      rw [runs_cons hl]
      exact List.forall_mem_cons.mpr ⟨hl, ih⟩

theorem Separators.cons {l : Lexeme} {ls : List Lexeme} (hl : isSeparator l = true)
    (h : Separators ls) : Separators (l :: ls) :=
  List.forall_mem_cons.mpr ⟨isSeparator_iff.mp hl, h⟩

theorem Body.program {ls : List Lexeme} {es : List Equation} (h : Body ls es) : Program ls es := by
  have hnone : Separators [] := by simp [Separators]
  exact Program.mk hnone h

theorem Program.separator {l : Lexeme} {ls : List Lexeme} {es : List Equation}
    (hl : isSeparator l = true) (h : Program ls es) : Program (l :: ls) es := by
  obtain ⟨hseps, hbody⟩ := h
  exact Program.mk (hseps.cons hl) hbody

/-- What follows the first run of a program: nothing, or a separator and a program. -/
def Follows (rest : List Lexeme) (es : List Equation) : Prop :=
  (rest = [] ∧ es = []) ∨ ∃ sep more, rest = sep :: more ∧ isSeparator sep = true ∧ Program more es

theorem Follows.program {rest : List Lexeme} {es : List Equation} (h : Follows rest es) :
    Program rest es := by
  rcases h with ⟨rfl, rfl⟩ | ⟨sep, more, rfl, hsep, hmore⟩
  · exact Body.nil.program
  · exact hmore.separator hsep

/-- An equation in front of what follows it. -/
theorem Follows.cons {ls rest : List Lexeme} {e : Equation} {es : List Equation}
    (h : Follows rest es) (he : Statement ls e) : Program (ls ++ rest) (e :: es) := by
  rcases h with ⟨rfl, rfl⟩ | ⟨sep, more, rfl, hsep, hseps, hbody⟩
  · rw [List.append_nil]
    exact (Body.last he).program
  · exact (Body.cons he (List.cons_ne_nil sep _) (hseps.cons hsep) hbody).program

/-- A run of an equation ends where the equation is complete. -/
theorem eq_complete_of_leads {stage last : Stage} {ls : List Lexeme} (h : Leads stage ls last)
    (hlast : last.isFinal = true) (hsep : ∀ l ∈ ls, isSeparator l = false) (hne : ls ≠ []) :
    last = .complete := by
  induction h with
  | nil => exact absurd rfl hne
  | @cons stage next last l ls hl hls ih =>
    obtain ⟨hl', hls'⟩ := List.forall_mem_cons.mp hsep
    by_cases hnil : ls = []
    · subst hnil
      cases hls
      cases next with
      | complete => rfl
      | start => exact absurd (Stage.separator_of_next hl) (isSeparator_eq_false_iff.mp hl')
      | _ => cases hlast
    · exact ih hlast hls' hnil

/-- The first run goes on from a stage, and after it there is nothing, or a separator and a
program. -/
structure Cut (stage : Stage) (ls : List Lexeme) : Prop where
  run : ∃ last, Leads stage (runs ls).1 last ∧ last.isFinal = true
  rest : ∃ rest, ls = (runs ls).1 ++ rest ∧ Follows rest ((runs ls).2.map ofTokens)

/-- At the start of an equation the first run is an equation too, unless it is empty. -/
theorem Cut.program {ls : List Lexeme} (h : Cut .start ls) : Program ls (listOfTokens ls) := by
  obtain ⟨⟨last, hrun, hlast⟩, rest, hls, hrest⟩ := h
  rw [listOfTokens_eq, allRuns]
  by_cases hnil : (runs ls).1 = []
  · have hprogram := hrest.program
    rw [hnil, List.nil_append] at hls
    rw [← hls] at hprogram
    rw [hnil, if_pos List.isEmpty_nil]
    exact hprogram
  · have hnone := not_separator_runs ls
    rw [eq_complete_of_leads hrun hlast hnone hnil] at hrun
    have hprogram := hrest.cons (statement_of_leads hrun hnone)
    rw [← hls] at hprogram
    rw [if_neg (by simpa using hnil)]
    exact hprogram

/-- **What leads from a stage to one where a program may end is cut into equations.** -/
theorem cut_of_leads {stage last : Stage} {ls : List Lexeme} (h : Leads stage ls last)
    (hlast : last.isFinal = true) : Cut stage ls := by
  induction h with
  | nil stage => exact ⟨⟨stage, .nil stage, hlast⟩, [], rfl, Or.inl ⟨rfl, rfl⟩⟩
  | @cons stage next last l ls hl _ ih =>
    have hcut := ih hlast
    cases hsep : isSeparator l with
    | false =>
      obtain ⟨⟨st, hrun, hst⟩, rest, hls, hrest⟩ := hcut
      constructor
      · rw [runs_cons hsep]
        exact ⟨st, .cons hl hrun, hst⟩
      · rw [runs_cons hsep]
        exact ⟨rest, by rw [List.cons_append, ← hls], hrest⟩
    | true =>
      obtain ⟨hstage, rfl⟩ := Stage.next_of_separator (isSeparator_iff.mp hsep) hl
      constructor
      · rw [runs_separator hsep]
        exact ⟨stage, .nil stage, hstage⟩
      · rw [runs_separator hsep]
        exact ⟨l :: ls, rfl, Or.inr ⟨l, ls, rfl, hsep, hcut.program⟩⟩

end Grammar

end PlonkGates
