import PlonkGates.Proofs.Precedence
import PlonkGates.Proofs.Rendering

/-!
# Why texts are turned down

A text that the grammar does not derive is turned down where it cannot go on. Otherwise its
coefficients are read in order. A coefficient is a run of digits, and it is refused if its value
exceeds the bound of the settings, or if it has more digits than a numeral may have, leading zeros
included (`readCoefficient_digits`). The first one that is refused is the fault of the text
(`parse_of_refused`), and a text without one is accepted or breaks a rule (`parse_of_accepted`).

So every fault is one that the author of a text is told about, with one exception: a coefficient
that is too long to be read is not reported as a bad coefficient (`parse_rejections_iff`).
-/

namespace PlonkGates

/-! ## Terms of a text -/

theorem Lexeme.spells_name {l : Lexeme} {kind : LexemeKind} (hkind : l.kind = kind)
    (h : l.kind.Spells l.text) : kind.Spells l.name.toList := by
  rwa [name, String.toList_ofList, ← hkind]

namespace Grammar

variable {ls : List Lexeme}

theorem Coefficient.spells {c : Option String} (h : Coefficient ls c)
    (hls : ∀ l ∈ ls, l.kind.Spells l.text) :
    ∀ text ∈ c, LexemeKind.digits.Spells text.toList := by
  cases h with
  | absent => simp
  | plain hc => simpa using Lexeme.spells_name hc (hls _ (by simp))
  | starred hc hstar => simpa using Lexeme.spells_name hc (hls _ (by simp))

theorem Factors.words {names : List String} (h : Factors ls names)
    (hls : ∀ l ∈ ls, l.kind.Spells l.text) :
    (∀ x ∈ names, LexemeKind.word.Spells x.toList) ∧ (names.length = 1 ∨ names.length = 2) := by
  cases h with
  | linear hx => simpa using Lexeme.spells_name hx (hls _ (by simp))
  | quadratic hx hstar hy =>
    simpa using ⟨Lexeme.spells_name hx (hls _ (by simp)), Lexeme.spells_name hy (hls _ (by simp))⟩

theorem Right.word {rhs : Option PublicTerm} (h : Right ls rhs)
    (hls : ∀ l ∈ ls, l.kind.Spells l.text) : ∀ p ∈ rhs, LexemeKind.word.Spells p.name.toList := by
  cases h with
  | zero => simp
  | plain hx => simpa using Lexeme.spells_name hx (hls _ (by simp))
  | signed hs hx => simpa using Lexeme.spells_name hx (hls _ (by simp))

theorem Term.isStandard {c : Option String} {names : List String} (h : Term ls c names)
    (hls : ∀ l ∈ ls, l.kind.Spells l.text) (negative : Bool) :
    Equation.Term.IsStandard ⟨negative, c, names⟩ := by
  cases h with
  | mk hc hf =>
    obtain ⟨hcs, hfs⟩ := List.forall_mem_append.mp hls
    obtain ⟨hwords, hdegree⟩ := hf.words hfs
    exact ⟨hc.spells hcs, hwords, hdegree⟩

theorem SignedTerms.isStandard {ts : List Equation.Term} (h : SignedTerms ls ts)
    (hls : ∀ l ∈ ls, l.kind.Spells l.text) : ∀ t ∈ ts, t.IsStandard := by
  induction h with
  | nil => simp
  | cons hs ht _ ih =>
    obtain ⟨hterm, hrest⟩ := List.forall_mem_append.mp (List.forall_mem_cons.mp hls).2
    exact List.forall_mem_cons.mpr ⟨ht.isStandard hterm _, ih hrest⟩

theorem Left.isStandard {ts : List Equation.Term} (h : Left ls ts)
    (hls : ∀ l ∈ ls, l.kind.Spells l.text) : ∀ t ∈ ts, t.IsStandard := by
  cases h with
  | unsigned ht hrest =>
    obtain ⟨hterm, hmore⟩ := List.forall_mem_append.mp hls
    exact List.forall_mem_cons.mpr ⟨ht.isStandard hterm _, hrest.isStandard hmore⟩
  | signed hs ht hrest =>
    obtain ⟨hterm, hmore⟩ := List.forall_mem_append.mp (List.forall_mem_cons.mp hls).2
    exact List.forall_mem_cons.mpr ⟨ht.isStandard hterm _, hrest.isStandard hmore⟩

theorem Statement.isStandard {q : Equation} (h : Statement ls q)
    (hls : ∀ l ∈ ls, l.kind.Spells l.text) : ∀ t ∈ q.terms, t.IsStandard := by
  cases h with
  | mk hleft _ _ _ => exact hleft.isStandard (List.forall_mem_append.mp hls).1

theorem Statement.right_word {q : Equation} (h : Statement ls q)
    (hls : ∀ l ∈ ls, l.kind.Spells l.text) : ∀ p ∈ q.rhs, LexemeKind.word.Spells p.name.toList := by
  cases h with
  | mk _ _ _ hright =>
    exact hright.word (List.forall_mem_cons.mp (List.forall_mem_append.mp hls).2).2

/-- What holds of each equation that is derived from spelled lexemes holds of all in a program. -/
theorem Body.forall_mem {P : Equation → Prop} {qs : List Equation} (h : Body ls qs)
    (hls : ∀ l ∈ ls, l.kind.Spells l.text)
    (hP : ∀ ls q, Statement ls q → (∀ l ∈ ls, l.kind.Spells l.text) → P q) : ∀ q ∈ qs, P q := by
  induction h with
  | nil => simp
  | last he => exact List.forall_mem_singleton.mpr (hP _ _ he hls)
  | cons he _ _ _ ih =>
    obtain ⟨hfirst, hmore⟩ := List.forall_mem_append.mp hls
    obtain ⟨-, hrest⟩ := List.forall_mem_append.mp hmore
    exact List.forall_mem_cons.mpr ⟨hP _ _ he hfirst, ih hrest⟩

end Grammar

/-- What holds of each equation that is derived from spelled lexemes holds of all in a text. -/
theorem Equation.forall_of_parse {P : Equation → Prop} {text : String} {qs : List Equation}
    (h : Equation.parse text = .ok qs)
    (hP : ∀ ls q, Grammar.Statement ls q → (∀ l ∈ ls, l.kind.Spells l.text) → P q) :
    ∀ q ∈ qs, P q := by
  obtain ⟨ls, hsplit, hprogram⟩ := derives_of_parseChars h
  cases hprogram with
  | mk _ hbody => exact hbody.forall_mem (List.forall_mem_append.mp hsplit.spells).2 hP

/-- **Coefficients of a text are runs of digits, on one variable or two.** -/
theorem Equation.isStandard_of_parse {text : String} {qs : List Equation}
    (h : Equation.parse text = .ok qs) : ∀ q ∈ qs, ∀ t ∈ q.terms, t.IsStandard :=
  forall_of_parse h fun _ _ hq hls => hq.isStandard hls

/-- **The names on the right sides of a text are words.** -/
theorem Equation.right_word_of_parse {text : String} {qs : List Equation}
    (h : Equation.parse text = .ok qs) :
    ∀ q ∈ qs, ∀ p ∈ q.rhs, LexemeKind.word.Spells p.name.toList :=
  forall_of_parse h fun _ _ hq hls => hq.right_word hls

/-! ## Coefficients that are refused -/

/-- A run of digits that is not read as a coefficient up to a bound. -/
def refuses (maximum : Nat) (digits : String) : Bool :=
  decide (Text.digitLimit < digits.length) ||
    decide (maximum < Text.ofAsciiDigits digits.toList)

/-- What is wrong with it. -/
def refusal (line : Option Int) (digits : String) : Fault :=
  if digits.length ≤ Text.digitLimit then .badCoefficient digits line
  else .tooManyDigits digits.length

/-- **A coefficient is read exactly if its value is within the bound, unless it is too long.** -/
theorem readCoefficient_digits {maximum : Nat} {line : Option Int} {digits : String}
    (h : LexemeKind.digits.Spells digits.toList) :
    readCoefficient (.int maximum) line (some digits) =
      if refuses maximum digits = true then .error (refusal line digits)
      else .ok (Text.ofAsciiDigits digits.toList) := by
  obtain ⟨hne, hall⟩ := h
  have hspelled : (digits.toList.isEmpty || !digits.toList.all Text.isAsciiDigit) = false := by
    simpa [hne] using hall
  rw [readCoefficient]
  simp only [hspelled, String.length_toList, Bool.false_eq_true, if_false, refuses, refusal]
  by_cases hlong : Text.digitLimit < digits.length
  · simp [hlong, Nat.not_le.mpr hlong]
  · by_cases hlarge : maximum < Text.ofAsciiDigits digits.toList
    · simp [hlong, Nat.not_lt.mp hlong, hlarge, exceedsBound, Value.integer?]
    · simp [hlong, hlarge, exceedsBound, Value.integer?]

section Normalising

variable {maximum : Nat} {line : Option Int} {t : Equation.Term} {ts : List Equation.Term}

/-- A term is normalised exactly if its coefficient is not refused, and keeps its kind. -/
theorem ofTerm_standard (h : t.IsStandard) :
    (∃ digits, t.coefficient = some digits ∧ refuses maximum digits = true ∧
      NormalTerm.ofTerm (.int maximum) line t = .error (refusal line digits)) ∨
    (∀ digits, t.coefficient = some digits → refuses maximum digits = false) ∧
      ∃ n, NormalTerm.ofTerm (.int maximum) line t = .ok n ∧
        n.quadratic?.isSome = t.isQuadratic := by
  obtain ⟨negative, coefficient, factors⟩ := t
  -- with a number for a coefficient, one variable or two make a term
  have hfactors : ∀ n : Nat, readCoefficient (.int maximum) line coefficient = .ok n →
      ∃ m, NormalTerm.ofTerm (.int maximum) line ⟨negative, coefficient, factors⟩ = .ok m ∧
        m.quadratic?.isSome = Equation.Term.isQuadratic ⟨negative, coefficient, factors⟩ := by
    intro n hn
    rcases h.degree with hone | htwo
    · obtain ⟨x, rfl⟩ := List.length_eq_one_iff.mp hone
      exact ⟨.linear ⟨negative, .int n, x⟩, by rw [NormalTerm.ofTerm, hn]; rfl, rfl⟩
    · obtain ⟨x, y, rfl⟩ := List.length_eq_two.mp htwo
      exact ⟨.quadratic ⟨negative, .int n, x, y⟩, by rw [NormalTerm.ofTerm, hn]; rfl, rfl⟩
  cases coefficient with
  | none => exact Or.inr ⟨by simp, hfactors 1 rfl⟩
  | some digits =>
    have hread := @readCoefficient_digits maximum line digits (h.coefficient digits rfl)
    by_cases hrefused : refuses maximum digits = true
    · rw [if_pos hrefused] at hread
      exact Or.inl ⟨digits, rfl, hrefused, by rw [NormalTerm.ofTerm, hread, error_bind]⟩
    · rw [if_neg hrefused] at hread
      refine Or.inr ⟨fun other hother => ?_, hfactors _ hread⟩
      cases hother
      exact Bool.eq_false_iff.mpr hrefused

/-- The coefficients of terms in the order in which they are read. -/
def Equation.literals (ts : List Equation.Term) : List String := ts.filterMap (·.coefficient)

/-- **The first coefficient that is refused ends the reading of terms.** -/
theorem mapM_ofTerm (h : ∀ t ∈ ts, t.IsStandard) :
    match (Equation.literals ts).find? (refuses maximum) with
    | some digits => ts.mapM (NormalTerm.ofTerm (.int maximum) line) = .error (refusal line digits)
    | none => ∃ ns, ts.mapM (NormalTerm.ofTerm (.int maximum) line) = .ok ns ∧
        (ns.filterMap NormalTerm.quadratic?).length = ts.countP (·.isQuadratic) := by
  induction ts with
  | nil => exact ⟨[], rfl, rfl⟩
  | cons t ts ih =>
    obtain ⟨ht, hts⟩ := List.forall_mem_cons.mp h
    rw [List.mapM_cons]
    rcases @ofTerm_standard maximum line t ht with
      ⟨digits, hdigits, hrefused, hterm⟩ | ⟨haccepted, n, hterm, hkind⟩
    · have hfirst : (Equation.literals (t :: ts)).find? (refuses maximum) = some digits := by
        rw [Equation.literals, List.filterMap_cons_some hdigits,
          List.find?_cons_of_pos hrefused]
      rw [hfirst, hterm]
      rfl
    · have hrest : (Equation.literals (t :: ts)).find? (refuses maximum) =
          (Equation.literals ts).find? (refuses maximum) := by
        cases hc : t.coefficient with
        | none => rw [Equation.literals, List.filterMap_cons_none hc, Equation.literals]
        | some digits =>
          rw [Equation.literals, List.filterMap_cons_some hc,
            List.find?_cons_of_neg (by simp [haccepted digits hc]), Equation.literals]
      have hmore := ih hts
      rw [hrest, hterm, ok_bind]
      cases hfind : (Equation.literals ts).find? (refuses maximum) with
      | some digits =>
        rw [hfind] at hmore
        rw [hmore]
        rfl
      | none =>
        rw [hfind] at hmore
        obtain ⟨ns, hns, hcount⟩ := hmore
        refine ⟨n :: ns, by rw [hns]; rfl, ?_⟩
        rw [List.countP_cons, ← hcount, ← hkind, List.filterMap_cons]
        cases n with
        | quadratic s => rfl
        | linear s => rfl

end Normalising

/-! ## Programs -/

namespace Equation

/-- The coefficients of a program that are read, in order and with the lines of their equations. A
second quadratic term ends the reading with its equation. -/
def coefficientsRead : List Equation → List (String × Option Int)
  | [] => []
  | q :: qs => (literals q.terms).map (·, q.line) ++
      if 1 < q.terms.countP (·.isQuadratic) then [] else coefficientsRead qs

/-- The first coefficient that is refused, with its line. -/
def firstRefused (maximum : Nat) (qs : List Equation) : Option (String × Option Int) :=
  (coefficientsRead qs).find? fun x => refuses maximum x.1

theorem firstRefused_cons (maximum : Nat) (q : Equation) (qs : List Equation) :
    firstRefused maximum (q :: qs) =
      (((literals q.terms).find? (refuses maximum)).map (·, q.line)).or
        (if 1 < q.terms.countP (·.isQuadratic) then none else firstRefused maximum qs) := by
  rw [firstRefused, coefficientsRead, List.find?_append, List.find?_map]
  split_ifs <;> rfl

end Equation

open Equation (firstRefused literals)

theorem Expression.ofEquation_standard {maximum : Nat} {q : Equation} {index : Int}
    (h : ∀ t ∈ q.terms, t.IsStandard) :
    match (literals q.terms).find? (refuses maximum) with
    | some digits => ofEquation q index (.int maximum) = .error (refusal q.line digits)
    | none =>
      if 1 < q.terms.countP (·.isQuadratic) then
        ∃ v, ofEquation q index (.int maximum) = .error (.violation v)
      else ∃ e, ofEquation q index (.int maximum) = .ok e := by
  have hterms := @mapM_ofTerm maximum q.line q.terms h
  rw [ofEquation]
  cases hfind : (literals q.terms).find? (refuses maximum) with
  | some digits =>
    rw [hfind] at hterms
    rw [hterms]
    rfl
  | none =>
    rw [hfind] at hterms
    obtain ⟨ns, hns, hcount⟩ := hterms
    rw [hns, ← hcount]
    dsimp only [ok_bind]
    split_ifs
    · exact ⟨_, rfl⟩
    · exact ⟨_, rfl⟩

/-- **The fault of a program that cannot be normalised.** It is that of the first coefficient that
is refused. If there is none, it is a second quadratic term. -/
theorem Expression.listOfEquations_standard {maximum : Nat} {qs : List Equation} {index : Nat}
    (h : ∀ q ∈ qs, ∀ t ∈ q.terms, t.IsStandard) :
    match firstRefused maximum qs with
    | some (digits, line) =>
      listOfEquations (.int maximum) index qs = .error (refusal line digits)
    | none => (∃ es, listOfEquations (.int maximum) index qs = .ok es) ∨
        ∃ v, listOfEquations (.int maximum) index qs = .error (.violation v) := by
  induction qs generalizing index with
  | nil => exact Or.inl ⟨[], rfl⟩
  | cons q qs ih =>
    obtain ⟨hq, hqs⟩ := List.forall_mem_cons.mp h
    have hfirst := @ofEquation_standard maximum q index hq
    rw [Equation.firstRefused_cons, listOfEquations]
    cases hfind : (literals q.terms).find? (refuses maximum) with
    | some digits =>
      rw [hfind] at hfirst
      rw [hfirst]
      rfl
    | none =>
      rw [hfind] at hfirst
      by_cases hmany : 1 < q.terms.countP (·.isQuadratic)
      · -- the equations behind are not looked at
        simp only [if_pos hmany] at hfirst ⊢
        obtain ⟨v, hv⟩ := hfirst
        exact Or.inr ⟨v, by rw [hv]; rfl⟩
      · simp only [if_neg hmany] at hfirst ⊢
        obtain ⟨e, he⟩ := hfirst
        have hrest := @ih (index + 1) hqs
        rw [he, Option.map_none, Option.none_or]
        cases hrefused : firstRefused maximum qs with
        | some x =>
          rw [hrefused] at hrest
          obtain ⟨digits, line⟩ := x
          dsimp only at hrest ⊢
          rw [ok_bind, hrest]
          rfl
        | none =>
          rw [hrefused] at hrest
          rcases hrest with ⟨es, hes⟩ | ⟨v, hv⟩
          · exact Or.inl ⟨e :: es, by rw [ok_bind, hes]; rfl⟩
          · exact Or.inr ⟨v, by rw [ok_bind, hv]; rfl⟩

/-! ## Texts -/

/-- The faults of a text that its author is told about. -/
def Fault.isRejection : Fault → Bool
  | unexpected .. => true
  | badCoefficient .. => true
  | violation .. => true
  | _ => false

theorem Equation.isRejection_of_parse {text : String} {fault : Fault}
    (h : Equation.parse text = .error fault) : fault.isRejection = true := by
  rw [parse, parseChars] at h
  cases hfailure : (Reading.ofText text.toList).failure with
  | none =>
    rw [hfailure] at h
    cases h
  | some failure =>
    rw [hfailure] at h
    cases h
    rfl

namespace Circuit

variable {settings : Settings} {text : String} {qs : List Equation}

/-- Rules are looked at once all coefficients are read, and breaking one is a fault of the text. -/
theorem parse_of_accepted (h : Equation.parse text = .ok qs)
    (hread : firstRefused settings.maxCoefficient qs = none) :
    (∃ c, Circuit.parse settings text = .ok c) ∨
      ∃ v, Circuit.parse settings text = .error (.violation v) := by
  have hlist := @Expression.listOfEquations_standard settings.maxCoefficient qs 0
    (Equation.isStandard_of_parse h)
  rw [hread] at hlist
  rw [Circuit.parse, h, ok_bind, ofEquations]
  rcases hlist with ⟨es, hes⟩ | ⟨v, hv⟩
  · rw [hes, ok_bind]
    rcases ofExpressions_cases settings.field es with ⟨hok, -⟩ | ⟨v, hv, -⟩
    · exact Or.inl ⟨_, hok⟩
    · exact Or.inr ⟨v, hv⟩
  · exact Or.inr ⟨v, by rw [hv, error_bind]⟩

theorem parse_of_refused {digits : String} {line : Option Int} (h : Equation.parse text = .ok qs)
    (hrefused : firstRefused settings.maxCoefficient qs = some (digits, line)) :
    Circuit.parse settings text = .error (refusal line digits) := by
  have hlist := @Expression.listOfEquations_standard settings.maxCoefficient qs 0
    (Equation.isStandard_of_parse h)
  rw [hrefused] at hlist
  rw [Circuit.parse, h, ok_bind, ofEquations, hlist, error_bind]

/-- **Texts are turned down for reasons that their authors are told, unless a coefficient is too
long to be read.** A fault of a text is none of those reasons exactly if the first coefficient that
is refused has more digits than a numeral may have. Apart from that, a coefficient is read exactly
if its value is within the bound, whatever zeros it starts with, and else it is reported with its
line; if all are read, the text is accepted or a rule is broken. -/
theorem parse_rejections_iff (settings : Settings) (text : String) :
    ((∀ fault, Circuit.parse settings text = .error fault → fault.isRejection = true) ↔
      ∀ qs digits line, Equation.parse text = .ok qs →
        firstRefused settings.maxCoefficient qs = some (digits, line) →
        digits.length ≤ Text.digitLimit) ∧
    ∀ qs, Equation.parse text = .ok qs →
      (∀ q ∈ qs, ∀ digits ∈ literals q.terms, digits.length ≤ Text.digitLimit → ∀ line,
        readCoefficient (.int settings.maxCoefficient) line (some digits) =
          if Text.ofAsciiDigits digits.toList ≤ settings.maxCoefficient then
            .ok (Text.ofAsciiDigits digits.toList)
          else .error (.badCoefficient digits line)) ∧
      match firstRefused settings.maxCoefficient qs with
      | none => (∃ c, Circuit.parse settings text = .ok c) ∨
          ∃ v, Circuit.parse settings text = .error (.violation v)
      | some (digits, line) => Circuit.parse settings text =
          .error (if digits.length ≤ Text.digitLimit then .badCoefficient digits line
            else .tooManyDigits digits.length) := by
  refine ⟨⟨?_, ?_⟩, fun qs h => ⟨?_, ?_⟩⟩
  · intro hreject qs digits line h hrefused
    by_contra hlong
    have hfault := hreject _ (parse_of_refused h hrefused)
    rw [refusal, if_neg hlong] at hfault
    cases hfault
  · intro hshort fault hfault
    cases h : Equation.parse text with
    | error cause =>
      rw [Circuit.parse, h, error_bind] at hfault
      cases hfault
      exact Equation.isRejection_of_parse h
    | ok qs =>
      cases hrefused : firstRefused settings.maxCoefficient qs with
      | none =>
        rcases parse_of_accepted h hrefused with ⟨c, hc⟩ | ⟨v, hv⟩
        · rw [hc] at hfault
          cases hfault
        · rw [hv] at hfault
          cases hfault
          rfl
      | some x =>
        rw [parse_of_refused h hrefused, refusal, if_pos (hshort qs x.1 x.2 h hrefused)] at hfault
        cases hfault
        rfl
  · intro q hq digits hdigits hlength line
    obtain ⟨t, ht, hcoefficient⟩ := List.mem_filterMap.mp hdigits
    have hstandard := Equation.isStandard_of_parse h q hq t ht
    rw [readCoefficient_digits (hstandard.coefficient digits hcoefficient), refuses, refusal,
      if_pos hlength]
    by_cases hvalue : Text.ofAsciiDigits digits.toList ≤ settings.maxCoefficient
    · simp [hvalue, Nat.not_lt.mpr hlength, Nat.not_lt.mpr hvalue]
    · simp [hvalue, Nat.not_le.mp hvalue]
  · cases hrefused : firstRefused settings.maxCoefficient qs with
    | none => exact parse_of_accepted h hrefused
    | some x => exact parse_of_refused h hrefused

end Circuit

/-! ## A long zero -/

/-- Leading zeros do not change the value of a run of digits. -/
theorem Text.ofAsciiDigits_replicate (n : Nat) (cs : List Char) :
    ofAsciiDigits (List.replicate n '0' ++ cs) = ofAsciiDigits cs := by
  induction n with
  | zero => rfl
  | succ n ih => exact ih

/-- A coefficient on the left side of a short equation is read as it is written. -/
theorem Equation.parse_coefficient {digits : String} (h : LexemeKind.digits.Spells digits.toList) :
    Equation.parse (digits ++ "x = y") =
      .ok [⟨[⟨false, some digits, ["x"]⟩], some ⟨false, "y"⟩, some 1⟩] := by
  have hblank : Lexeme.Spelled 1 [] [' '] := .gap rfl
  have hword : ∀ c, Lexeme.isLetter c = true →
      Lexeme.Spelled 1 [Lexeme.onLine 1 .word [c]] [c] := fun c hc =>
    .lexeme ⟨c, [], rfl, hc, by simp⟩ (by decide)
  have hequals : Lexeme.Spelled 1 [Lexeme.onLine 1 .equals ['=']] ['='] := .lexeme rfl (by decide)
  have hdigits : Lexeme.Spelled 1 [Lexeme.onLine 1 .digits digits.toList] digits.toList :=
    .lexeme h (by decide)
  have hrest : Lexeme.Spelled 1
      [.onLine 1 .word ['x'], .onLine 1 .equals ['='], .onLine 1 .word ['y']] "x = y".toList :=
    ((hword 'x' rfl).append ((hblank.append hequals).append hblank)).append (hword 'y' rfl)
  have hstart : 1 = 1 + ([] : List Char).count '\n' := rfl
  have hend : ∀ before, Lexeme.Split before [] [] := fun _ => .nil (by simp)
  have hsplit := (hdigits.append hrest).split hstart (hend _)
  rw [List.append_nil, List.append_nil] at hsplit
  -- the sentence: digits and a word make a term, and a word is the right side
  have hcoefficient := Grammar.Coefficient.plain (c := Lexeme.onLine 1 .digits digits.toList) rfl
  rw [Grammar.name_onLine] at hcoefficient
  have hterm := Grammar.Term.mk hcoefficient
    (Grammar.Factors.linear (x := Lexeme.onLine 1 .word ['x']) rfl)
  have hstatement := Grammar.Statement.mk (.unsigned hterm .nil) rfl
    (show (Lexeme.onLine 1 .equals ['=']).kind = .equals from rfl)
    (.plain (x := Lexeme.onLine 1 .word ['y']) rfl)
  rw [parse, String.toList_append]
  refine parseChars_of_derives ⟨_, ?_, (Grammar.Body.last hstatement).program⟩
  rw [← hsplit.withoutComments_eq] at hsplit
  exact hsplit

/-- The number zero with many digits. -/
def zeros (n : Nat) : String := String.ofList (List.replicate n '0')

section Zeros

variable {n : Nat}

theorem length_zeros (n : Nat) : (zeros n).length = n := by
  rw [zeros, String.length_ofList, List.length_replicate]

theorem ofAsciiDigits_zeros (n : Nat) : Text.ofAsciiDigits (zeros n).toList = 0 := by
  rw [zeros, String.toList_ofList, ← List.append_nil (List.replicate n '0'),
    Text.ofAsciiDigits_replicate]
  rfl

theorem spells_zeros (hn : n ≠ 0) : LexemeKind.digits.Spells (zeros n).toList := by
  rw [zeros, String.toList_ofList]
  refine ⟨by simpa using hn, fun c hc => ?_⟩
  rw [List.eq_of_mem_replicate hc]
  rfl

/-- A zero with too many digits is not read, although zero is within every bound. -/
theorem Circuit.parse_zeros (settings : Settings) (hn : Text.digitLimit < n) :
    Circuit.parse settings (zeros n ++ "x = y") = .error (.tooManyDigits n) := by
  have hlong : Text.digitLimit < (zeros n).length := by rwa [length_zeros]
  have hrefused : firstRefused settings.maxCoefficient
      [⟨[⟨false, some (zeros n), ["x"]⟩], some ⟨false, "y"⟩, some 1⟩] =
        some (zeros n, some 1) := by
    refine List.find?_cons_of_pos ?_
    rw [refuses, decide_eq_true hlong, Bool.true_or]
  rw [parse_of_refused (Equation.parse_coefficient (spells_zeros (by omega))) hrefused, refusal,
    if_neg (Nat.not_le.mpr hlong), length_zeros]

end Zeros

/-- With 4301 digits a zero is not read, and the fault is none that the author of the text is told
about. -/
theorem Circuit.parse_longZero :
    Text.ofAsciiDigits (zeros 4301).toList ≤ Settings.default.maxCoefficient ∧
      Circuit.parse .default (zeros 4301 ++ "x = y") = .error (.tooManyDigits 4301) ∧
      (Fault.tooManyDigits 4301).isRejection = false ∧
      (Fault.tooManyDigits 4301).reported = false := by
  refine ⟨?_, parse_zeros .default (by decide), rfl, rfl⟩
  rw [ofAsciiDigits_zeros]
  exact Nat.zero_le _

end PlonkGates
