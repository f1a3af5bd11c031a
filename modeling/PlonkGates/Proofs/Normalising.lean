import PlonkGates.Proofs.Grammar
import PlonkGates.Proofs.Meaning

/-!
# Equations are normalised exactly

Equations need not come from a text: their coefficients may be any texts, and their terms may have
any number of variables. A term is sound if its coefficient is a number up to the bound and if it
has one variable or two. The first term of an equation that is not sound is the fault of the
equation, and of that term the coefficient counts before the variables. Equations of sound terms are
turned down only for a second quadratic term, and this is found when all terms have been read.

What is left is an expression with the linear terms in their order and with the quadratic term
wherever it stood. It says the same as the equation (`ofEquation_exact`).
-/

namespace PlonkGates

/-! ## Coefficients -/

/-- The text is a number up to a bound: it has digits only, and at least one. -/
def IsReadable (bound : Int) (text : String) : Prop :=
  LexemeKind.digits.Spells text.toList ∧ (Text.ofAsciiDigits text.toList : Int) ≤ bound

theorem spells_digits_iff {cs : List Char} :
    LexemeKind.digits.Spells cs ↔ (cs.isEmpty || !cs.all Text.isAsciiDigit) = false := by
  simp [LexemeKind.Spells]

/-- **Texts that are short enough are read exactly if they are numbers up to the bound.** -/
theorem readCoefficient_text {bound : Int} {text : String} (line : Option Int)
    (hshort : text.length ≤ Text.digitLimit) :
    (IsReadable bound text → readCoefficient (.int bound) line (some text) =
      .ok (Text.ofAsciiDigits text.toList)) ∧
    (¬ IsReadable bound text → readCoefficient (.int bound) line (some text) =
      .error (.badCoefficient text line)) := by
  have hlength : ¬ Text.digitLimit < text.toList.length := by
    rw [String.length_toList]
    omega
  unfold readCoefficient
  by_cases hdigits : LexemeKind.digits.Spells text.toList
  · have hspelled := spells_digits_iff.mp hdigits
    constructor
    · rintro ⟨-, hle⟩
      simp [hspelled, hlength, exceedsBound, Value.integer?, not_lt.mpr hle]
    · intro h
      have hlarge : bound < Text.ofAsciiDigits text.toList := not_le.mp fun hle => h ⟨hdigits, hle⟩
      simp [hspelled, hlength, exceedsBound, Value.integer?, hlarge]
  · refine ⟨fun h => absurd h.1 hdigits, fun _ => ?_⟩
    rw [spells_digits_iff, Bool.not_eq_false] at hdigits
    simp [hdigits]

/-! ## Terms -/

namespace Equation.Term

/-- A term that can be normalised: its coefficient is a number up to the bound, if it has one, and
it has one variable or two. -/
structure IsSound (bound : Int) (t : Term) : Prop where
  coefficient : ∀ text, t.coefficient = some text → IsReadable bound text
  degree : t.factors.length = 1 ∨ t.factors.length = 2

/-- The text of the coefficient is not too long to be read at all. -/
def IsShort (t : Term) : Prop := ∀ text, t.coefficient = some text → text.length ≤ 4300

/-- A term of one variable. -/
def asLinear? (t : Term) : Option LinearTerm :=
  match t.factors with
  | [x] => some ⟨t.negative, .int (coefficientValue t.coefficient), x⟩
  | _ => none

/-- A term of two variables. -/
def asQuadratic? (t : Term) : Option QuadraticTerm :=
  match t.factors with
  | [x, y] => some ⟨t.negative, .int (coefficientValue t.coefficient), x, y⟩
  | _ => none

theorem isSome_asQuadratic? (t : Term) : t.asQuadratic?.isSome = t.isQuadratic := by
  obtain ⟨negative, coefficient, factors⟩ := t
  match factors with
  | [] | [x] | [x, y] | x :: y :: z :: rest => simp [asQuadratic?, isQuadratic]

end Equation.Term

namespace NormalTerm

open Equation (coefficientValue)
open Equation.Term (IsSound IsShort asLinear? asQuadratic?)

variable {bound : Int} {line : Option Int} {t : Equation.Term}

theorem ofTerm_of_not_isReadable {text : String} (hshort : t.IsShort)
    (htext : t.coefficient = some text) (h : ¬ IsReadable bound text) :
    ofTerm (.int bound) line t = .error (.badCoefficient text line) := by
  rw [ofTerm, htext, (readCoefficient_text line (hshort text htext)).2 h, error_bind]

theorem exists_coefficient (hshort : t.IsShort)
    (h : ∀ text, t.coefficient = some text → IsReadable bound text) :
    ∃ n : Nat, readCoefficient (.int bound) line t.coefficient = .ok n ∧
      (n : Int) = coefficientValue t.coefficient := by
  cases htext : t.coefficient with
  | none => exact ⟨1, rfl, rfl⟩
  | some text =>
    exact ⟨_, (readCoefficient_text line (hshort text htext)).1 (h text htext), rfl⟩

/-- The variables are counted once the coefficient has been read. -/
theorem ofTerm_of_degree (hshort : t.IsShort)
    (h : ∀ text, t.coefficient = some text → IsReadable bound text)
    (hone : t.factors.length ≠ 1) (htwo : t.factors.length ≠ 2) :
    ofTerm (.int bound) line t = .error (.badTerm t) := by
  obtain ⟨n, hn, -⟩ := @exists_coefficient bound line t hshort h
  rw [ofTerm, hn, ok_bind]
  match hfactors : t.factors with
  | [] => rfl
  | [x] => simp [hfactors] at hone
  | [x, y] => simp [hfactors] at htwo
  | x :: y :: z :: rest => rfl

/-- A sound term is linear or quadratic by the number of its variables. -/
theorem exists_ofTerm (hshort : t.IsShort) (h : t.IsSound bound) :
    ∃ n, ofTerm (.int bound) line t = .ok n ∧ n.linear? = t.asLinear? ∧
      n.quadratic? = t.asQuadratic? := by
  obtain ⟨c, hc, hvalue⟩ := @exists_coefficient bound line t hshort h.coefficient
  rcases h.degree with hone | htwo
  · obtain ⟨x, hx⟩ := List.length_eq_one_iff.mp hone
    refine ⟨.linear ⟨t.negative, .int c, x⟩, ?_, ?_, ?_⟩
    · rw [ofTerm, hc, ok_bind, hx]
    · simp [linear?, asLinear?, hx, hvalue]
    · simp [quadratic?, asQuadratic?, hx]
  · obtain ⟨x, y, hxy⟩ := List.length_eq_two.mp htwo
    refine ⟨.quadratic ⟨t.negative, .int c, x, y⟩, ?_, ?_, ?_⟩
    · rw [ofTerm, hc, ok_bind, hxy]
    · simp [linear?, asLinear?, hxy]
    · simp [quadratic?, asQuadratic?, hxy, hvalue]

/-- Sound terms are normalised one by one, and each stays of its kind. -/
theorem exists_mapM_ofTerm {ts : List Equation.Term} (hshort : ∀ t ∈ ts, t.IsShort)
    (h : ∀ t ∈ ts, t.IsSound bound) :
    ∃ ns, ts.mapM (ofTerm (.int bound) line) = .ok ns ∧
      ns.filterMap linear? = ts.filterMap asLinear? ∧
      ns.filterMap quadratic? = ts.filterMap asQuadratic? := by
  induction ts with
  | nil => exact ⟨[], rfl, rfl, rfl⟩
  | cons t ts ih =>
    obtain ⟨htshort, hshort⟩ := List.forall_mem_cons.mp hshort
    obtain ⟨ht, hts⟩ := List.forall_mem_cons.mp h
    obtain ⟨n, hn, hlinear, hquadratic⟩ := @exists_ofTerm bound line t htshort ht
    obtain ⟨ns, hns, hlinears, hquadratics⟩ := ih hshort hts
    refine ⟨n :: ns, by rw [List.mapM_cons, hn, ok_bind, hns]; rfl, ?_, ?_⟩
    · rw [List.filterMap_cons, List.filterMap_cons, hlinear, hlinears]
    · rw [List.filterMap_cons, List.filterMap_cons, hquadratic, hquadratics]

end NormalTerm

/-! ## Equations -/

namespace Expression

open Equation.Term (IsSound IsShort asLinear? asQuadratic?)

variable {q : Equation} {index bound : Int}

/-- The first term that cannot be normalised ends the reading of an equation. -/
theorem ofEquation_of_error {before after : List Equation.Term} {t : Equation.Term} {fault : Fault}
    (hterms : q.terms = before ++ t :: after) (hshort : ∀ s ∈ q.terms, s.IsShort)
    (hbefore : ∀ s ∈ before, s.IsSound bound)
    (h : NormalTerm.ofTerm (.int bound) q.line t = .error fault) :
    ofEquation q index (.int bound) = .error fault := by
  have hread : q.terms.mapM (NormalTerm.ofTerm (.int bound) q.line) = .error fault := by
    refine mapM_eq_error.mpr ⟨before, t, after, hterms, fun s hs => ?_, h⟩
    have hmem : s ∈ q.terms := by
      rw [hterms]
      exact List.mem_append_left _ hs
    obtain ⟨n, hn, -⟩ := NormalTerm.exists_ofTerm (hshort s hmem) (hbefore s hs)
    exact ⟨n, hn⟩
  rw [ofEquation, hread, error_bind]

theorem count_asQuadratic? (ts : List Equation.Term) :
    (ts.filterMap asQuadratic?).length = ts.countP (·.isQuadratic) := by
  rw [List.length_filterMap_eq_countP]
  simp only [Equation.Term.isSome_asQuadratic?]

/-- Sound terms are sorted by their number of variables. -/
theorem ofEquation_of_isSound (hshort : ∀ t ∈ q.terms, t.IsShort)
    (hsound : ∀ t ∈ q.terms, t.IsSound bound) : ofEquation q index (.int bound) =
      if q.terms.countP (·.isQuadratic) > 1 then
        .error (.violation ⟨.manyQuadratic (q.terms.countP (·.isQuadratic)), index, q.line⟩)
      else .ok ⟨(q.terms.filterMap asQuadratic?).head?, q.terms.filterMap asLinear?, q.rhs,
        q.line⟩ := by
  obtain ⟨ns, hns, hlinear, hquadratic⟩ :=
    @NormalTerm.exists_mapM_ofTerm bound q.line q.terms hshort hsound
  rw [ofEquation, hns, ok_bind, ← count_asQuadratic?, ← hlinear, ← hquadratic]

/-- **Equations are normalised exactly.** The first term that is not sound decides the fault, by its
coefficient before its variables. If there is none, two quadratic terms or more are reported with
their number. Otherwise the linear terms are those of one variable in their order, the quadratic
term is the one of two variables, and both sides differ by as much as before for all values. -/
theorem ofEquation_exact (q : Equation) (index bound : Int) (hshort : ∀ t ∈ q.terms, t.IsShort) :
    (∀ before t after, q.terms = before ++ t :: after → (∀ s ∈ before, s.IsSound bound) →
      (∀ text, t.coefficient = some text → ¬ IsReadable bound text →
        ofEquation q index (.int bound) = .error (.badCoefficient text q.line)) ∧
      ((∀ text, t.coefficient = some text → IsReadable bound text) →
        t.factors.length ≠ 1 → t.factors.length ≠ 2 →
        ofEquation q index (.int bound) = .error (.badTerm t))) ∧
    ((∀ t ∈ q.terms, t.IsSound bound) →
      (2 ≤ q.terms.countP (·.isQuadratic) → ofEquation q index (.int bound) =
        .error (.violation
          ⟨.manyQuadratic (q.terms.countP (·.isQuadratic)), index, q.line⟩)) ∧
      (q.terms.countP (·.isQuadratic) < 2 → ∃ e, ofEquation q index (.int bound) = .ok e ∧
        e.linear = q.terms.filterMap asLinear? ∧
        e.quadratic.toList = q.terms.filterMap asQuadratic? ∧
        e.rhs = q.rhs ∧ e.line = q.line ∧ ∀ v, e.difference v = q.difference v)) := by
  constructor
  · intro before t after hterms hbefore
    have ht : t.IsShort := hshort t (by simp [hterms])
    constructor
    · intro text htext hbad
      exact ofEquation_of_error hterms hshort hbefore
        (NormalTerm.ofTerm_of_not_isReadable ht htext hbad)
    · intro hgood hone htwo
      exact ofEquation_of_error hterms hshort hbefore
        (NormalTerm.ofTerm_of_degree ht hgood hone htwo)
  · intro hsound
    have heq := @ofEquation_of_isSound q index bound hshort hsound
    constructor
    · intro hmany
      rw [heq, if_pos (by omega)]
    · intro hfew
      rw [if_neg (by omega)] at heq
      refine ⟨_, heq, rfl, ?_, rfl, rfl, difference_ofEquation heq⟩
      -- a list of at most one quadratic term is known by its head
      rw [← count_asQuadratic?] at hfew
      match hterms : q.terms.filterMap asQuadratic?, hfew with
      | [], _ => rfl
      | [t], _ => rfl

/-- The equation `3y - x*z + 2w = p`, with the quadratic term in the middle. -/
def middleQuadratic : Equation :=
  ⟨[⟨false, some "3", ["y"]⟩, ⟨true, none, ["x", "z"]⟩, ⟨false, some "2", ["w"]⟩],
    some ⟨false, "p"⟩, some 1⟩

theorem ofEquation_exact_middleQuadratic :
    (∀ t ∈ middleQuadratic.terms, t.IsShort ∧ t.IsSound 9) ∧
      ∃ e, ofEquation middleQuadratic 0 (.int 9) = .ok e ∧
        e.linear.map (·.name) = ["y", "w"] ∧ e.quadratic.toList.map (·.left) = ["x"] ∧
        ∀ v, e.difference v = middleQuadratic.difference v := by
  have hcoefficient : ∀ text, text = "3" ∨ text = "2" → text.length ≤ 4300 ∧ IsReadable 9 text := by
    rintro text (rfl | rfl)
    · exact ⟨by decide, spells_digits_iff.mpr rfl, by decide⟩
    · exact ⟨by decide, spells_digits_iff.mpr rfl, by decide⟩
  have hterms : ∀ t ∈ middleQuadratic.terms, t.IsShort ∧ t.IsSound 9 := by
    intro t ht
    have htexts : ∀ text, t.coefficient = some text → text = "3" ∨ text = "2" := by
      simp only [middleQuadratic, List.mem_cons, List.not_mem_nil, or_false] at ht
      rcases ht with rfl | rfl | rfl <;> simp [eq_comm]
    have hdegree : t.factors.length = 1 ∨ t.factors.length = 2 := by
      simp only [middleQuadratic, List.mem_cons, List.not_mem_nil, or_false] at ht
      rcases ht with rfl | rfl | rfl <;> simp
    exact ⟨fun text htext => (hcoefficient text (htexts text htext)).1,
      fun text htext => (hcoefficient text (htexts text htext)).2, hdegree⟩
  obtain ⟨-, hsound⟩ := ofEquation_exact middleQuadratic 0 9 fun t ht => (hterms t ht).1
  obtain ⟨e, he, hlinear, hquadratic, -, -, hdifference⟩ :=
    (hsound fun t ht => (hterms t ht).2).2 (by decide)
  refine ⟨hterms, e, he, ?_, ?_, hdifference⟩
  · rw [hlinear]
    rfl
  · rw [hquadratic]
    rfl

end Expression

end PlonkGates
