import PlonkGates.Expression.OfEquation
import PlonkGates.Proofs.Numerals
import PlonkGates.Proofs.Parsing

/-!
# Expressions are read back

The standard text of an expression stands for an equation with the same terms
(`Expression.written`), from which the expression is normalised again. So programs whose equations
are printed, one to a line or between semicolons, are read back as they were.

That a text is read is shown by a derivation: each piece of a printed equation spells lexemes on its
line (`Spelled`), and these make a sentence of the grammar.
-/

namespace PlonkGates

/-! ## Printed expressions as equations -/

/-- A coefficient as it is printed: one is left out. -/
def writtenCoefficient (v : Value) : Option String := if v.isOne then none else some v.plain

def QuadraticTerm.written (t : QuadraticTerm) : Equation.Term :=
  ⟨t.negative, writtenCoefficient t.coefficient, [t.left, t.right]⟩

def LinearTerm.written (t : LinearTerm) : Equation.Term :=
  ⟨t.negative, writtenCoefficient t.coefficient, [t.name]⟩

/-- The text of a term without its sign. -/
def Equation.Term.body (t : Equation.Term) : String :=
  t.coefficient.getD "" ++ "*".intercalate t.factors

theorem coefficientText_eq {v : Value} (h : v.isWritable = true) :
    coefficientText v = .ok ((writtenCoefficient v).getD "") := by
  rw [coefficientText, writtenCoefficient, Value.write_of_isWritable h]
  cases v.isOne <;> rfl

theorem QuadraticTerm.body_eq {t : QuadraticTerm} (h : t.coefficient.isWritable = true) :
    t.body = .ok t.written.body := by
  rw [body, coefficientText_eq h, Equation.Term.body, written, String.intercalate_cons_cons,
    String.intercalate_singleton]
  simp only [String.append_assoc, ok_map]

theorem LinearTerm.body_eq {t : LinearTerm} (h : t.coefficient.isWritable = true) :
    t.body = .ok t.written.body := by
  rw [body, coefficientText_eq h, Equation.Term.body, written, String.intercalate_singleton, ok_map]

/-- A coefficient that can be read back: a natural number that does not exceed the bound, of few
enough digits. -/
def Value.IsCoefficient (maximum : Int) (v : Value) : Prop :=
  ∃ n : Nat, v = .int n ∧ (n : Int) ≤ maximum ∧ n.repr.length ≤ Text.digitLimit

namespace Expression

/-- The terms of the left side in the order in which they are printed. -/
def writtenTerms (e : Expression) : List Equation.Term :=
  (e.quadratic.map QuadraticTerm.written).toList ++ e.linear.map LinearTerm.written

/-- The equation that the text of an expression stands for. -/
def written (e : Expression) (line : Nat) : Equation := ⟨e.writtenTerms, e.rhs, some (line : Int)⟩

/-- An expression that can be read back: it has a term, its names are words, and its coefficients
can be read back. -/
structure Printable (maximum : Int) (e : Expression) : Prop where
  nonempty : e.quadratic.isSome = true ∨ e.linear ≠ []
  names : ∀ x ∈ e.names, LexemeKind.word.Spells x.toList
  coefficients : ∀ v ∈ e.coefficients, v.IsCoefficient maximum

/-- The text of an expression whose coefficients can be written. -/
def spelling (e : Expression) : String :=
  leftText (e.writtenTerms.map fun t => (t.negative, t.body)) ++ " = " ++ rightText e.rhs

theorem toText_eq {e : Expression} (h : ∀ v ∈ e.coefficients, v.isWritable = true) :
    e.toText = .ok e.spelling := by
  rw [coefficients, List.forall_mem_append, List.forall_mem_map, Option.toList_map,
    List.forall_mem_map] at h
  have hquadratic : e.quadratic.toList.mapM (fun t => t.body.map (t.negative, ·)) =
      .ok ((e.quadratic.toList.map QuadraticTerm.written).map fun t => (t.negative, t.body)) := by
    rw [mapM_eq_ok, List.forall₂_map_right_iff, List.forall₂_map_right_iff, List.forall₂_same]
    intro t ht
    rw [QuadraticTerm.body_eq (h.1 t ht), ok_map]
    rfl
  have hlinear : e.linear.mapM (fun t => t.body.map (t.negative, ·)) =
      .ok ((e.linear.map LinearTerm.written).map fun t => (t.negative, t.body)) := by
    rw [mapM_eq_ok, List.forall₂_map_right_iff, List.forall₂_map_right_iff, List.forall₂_same]
    intro t ht
    rw [LinearTerm.body_eq (h.2 t ht), ok_map]
    rfl
  rw [toText, signedBodies, hquadratic, ok_bind, hlinear, ok_bind, ok_bind, ← List.map_append,
    ← Option.toList_map]
  rfl

end Expression

/-! ## Numerals -/

section Numerals

variable {n : Nat} {c : Char}

theorem isAsciiDigit_of_mem_repr (h : c ∈ n.repr.toList) : Text.isAsciiDigit c = true := by
  rw [Nat.repr_eq_ofList_toDigits, String.toList_ofList] at h
  have hdigit := Nat.isDigit_of_mem_toDigits (by decide) (by decide) h
  simp only [Char.isDigit, Bool.and_eq_true, decide_eq_true_eq, UInt32.le_iff_toNat_le] at hdigit
  simp only [Text.isAsciiDigit, Bool.and_eq_true, decide_eq_true_eq]
  exact hdigit

theorem spells_repr (n : Nat) : LexemeKind.digits.Spells n.repr.toList := by
  refine ⟨?_, fun c hc => isAsciiDigit_of_mem_repr hc⟩
  rw [Nat.repr_eq_ofList_toDigits, String.toList_ofList]
  exact Nat.toDigits_ne_nil

theorem ofAsciiDigits_repr (n : Nat) : Text.ofAsciiDigits n.repr.toList = n := by
  rw [Nat.repr_eq_ofList_toDigits, String.toList_ofList, Text.ofAsciiDigits, Text.ofDigits,
    List.foldl_map]
  have hdigits := @Nat.ofDigitChars_ten_toDigits n
  rw [Nat.ofDigitChars_eq_foldl] at hdigits
  exact hdigits

/-- A numeral of few enough digits is that of a short number. -/
theorem isShort_of_length_repr (h : n.repr.length ≤ Text.digitLimit) : Text.IsShort n := by
  rw [← ofAsciiDigits_repr n]
  exact Text.isShort_ofAsciiDigits (fun c hc => isAsciiDigit_of_mem_repr hc)
    (by rwa [String.length_toList])

end Numerals

theorem Expression.Printable.toText_eq {maximum : Int} {e : Expression} (h : e.Printable maximum) :
    e.toText = .ok e.spelling := by
  refine Expression.toText_eq fun v hv => ?_
  obtain ⟨n, rfl, -, hdigits⟩ := h.coefficients v hv
  exact Value.isWritable_int.mpr (isShort_of_length_repr hdigits)

/-- A number is printed with its digits, unless it is one. -/
theorem writtenCoefficient_int (n : Nat) :
    writtenCoefficient (.int n) = if n = 1 then none else some n.repr := by
  have hplain : (Value.int n).plain = n.repr := rfl
  have hone : (Value.int n).isOne = true ↔ n = 1 := by
    rw [Value.isOne, beq_iff_eq]
    omega
  rw [writtenCoefficient, hplain]
  exact if_congr hone rfl rfl

theorem readCoefficient_written {maximum : Int} {line : Option Int} {n : Nat}
    (hmaximum : (n : Int) ≤ maximum) (hdigits : n.repr.length ≤ Text.digitLimit) :
    readCoefficient (.int maximum) line (writtenCoefficient (.int n)) = .ok n := by
  rw [writtenCoefficient_int]
  by_cases hone : n = 1
  · subst hone
    rfl
  · obtain ⟨hne, hall⟩ := spells_repr n
    have hspelled : (n.repr.toList.isEmpty || !n.repr.toList.all Text.isAsciiDigit) = false := by
      simpa [hne] using hall
    have hlength : ¬ n.repr.toList.length > Text.digitLimit := by
      rw [String.length_toList]
      omega
    have hbound : exceedsBound n (.int maximum) = .ok false := by
      simp [exceedsBound, Value.integer?, hmaximum]
    rw [if_neg hone, readCoefficient]
    simp only [hspelled, if_neg hlength, ofAsciiDigits_repr, hbound]
    rfl

section Normalising

variable {maximum : Int} {line : Option Int}

theorem ofTerm_linear {t : LinearTerm} (h : t.coefficient.IsCoefficient maximum) :
    NormalTerm.ofTerm (.int maximum) line t.written = .ok (.linear t) := by
  obtain ⟨negative, coefficient, name⟩ := t
  obtain ⟨n, rfl, hmaximum, hdigits⟩ := h
  rw [NormalTerm.ofTerm, LinearTerm.written, readCoefficient_written hmaximum hdigits]
  rfl

theorem ofTerm_quadratic {t : QuadraticTerm} (h : t.coefficient.IsCoefficient maximum) :
    NormalTerm.ofTerm (.int maximum) line t.written = .ok (.quadratic t) := by
  obtain ⟨negative, coefficient, left, right⟩ := t
  obtain ⟨n, rfl, hmaximum, hdigits⟩ := h
  rw [NormalTerm.ofTerm, QuadraticTerm.written, readCoefficient_written hmaximum hdigits]
  rfl

/-- **The equation of a printed expression is normalised to the expression.** -/
theorem Expression.ofEquation_written {e : Expression}
    (h : ∀ v ∈ e.coefficients, v.IsCoefficient maximum) (line : Nat) (index : Int) :
    ofEquation (e.written line) index (.int maximum) =
      .ok { e with line := some (line : Int) } := by
  obtain ⟨quadratic, linear, rhs, eline⟩ := e
  obtain ⟨hquadratic, hlinear⟩ := List.forall_mem_append.mp h
  have hterms : (writtenTerms ⟨quadratic, linear, rhs, eline⟩).mapM
      (NormalTerm.ofTerm (.int maximum) (some (line : Int))) =
        .ok (quadratic.toList.map .quadratic ++ linear.map .linear) := by
    refine mapM_eq_ok.mpr (List.rel_append ?_ ?_)
    · cases quadratic with
      | none => exact .nil
      | some t => exact .cons (ofTerm_quadratic (hquadratic _ (by simp))) .nil
    · rw [List.forall₂_map_left_iff, List.forall₂_map_right_iff, List.forall₂_same]
      exact fun t ht => ofTerm_linear (hlinear _ (List.mem_map_of_mem ht))
  have hquadratics : (quadratic.toList.map NormalTerm.quadratic ++
      linear.map NormalTerm.linear).filterMap NormalTerm.quadratic? = quadratic.toList := by
    simp [List.filterMap_map, Function.comp_def, NormalTerm.quadratic?]
  have hlinears : (quadratic.toList.map NormalTerm.quadratic ++
      linear.map NormalTerm.linear).filterMap NormalTerm.linear? = linear := by
    simp [List.filterMap_map, Function.comp_def, NormalTerm.linear?]
  have hone : ¬ quadratic.toList.length > 1 := by
    cases quadratic <;> simp
  rw [ofEquation, written, hterms, ok_bind]
  simp only [hquadratics, hlinears, if_neg hone]
  cases quadratic <;> rfl

end Normalising

/-! ## Spelling lexemes on a line -/

namespace Lexeme

/-- A text on one line that spells lexemes, whatever stands around it. -/
structure Spelled (line : Nat) (ls : List Lexeme) (text : List Char) : Prop where
  lines : ∀ l ∈ ls, l.start.line = line
  no_feed : text.count '\n' = 0
  split : ∀ {before rest : List Char} {more : List Lexeme}, line = 1 + before.count '\n' →
    Split (before ++ text) more rest → Split before (ls ++ more) (text ++ rest)

namespace Spelled

variable {line : Nat} {ls ls' : List Lexeme} {text text' : List Char}

theorem nil (line : Nat) : Spelled line [] [] where
  lines := by simp
  no_feed := rfl
  split _ h := by simpa using h

theorem append (h : Spelled line ls text) (h' : Spelled line ls' text') :
    Spelled line (ls ++ ls') (text ++ text') where
  lines := List.forall_mem_append.mpr ⟨h.lines, h'.lines⟩
  no_feed := by rw [List.count_append, h.no_feed, h'.no_feed]
  split := by
    intro before rest more hline hrest
    rw [List.append_assoc, List.append_assoc]
    refine h.split hline (h'.split ?_ ?_)
    · rw [List.count_append, h.no_feed]
      exact hline
    · rw [List.append_assoc]
      exact hrest

theorem gap {c : Char} (hc : isGap c = true) : Spelled line [] [c] where
  lines := by simp
  no_feed := by simpa [List.count_singleton] using isGap_ne_newline hc
  split _ hrest := Split.gap hc hrest

theorem lexeme {kind : LexemeKind} (hspells : kind.Spells text) (hkind : kind ≠ .newlines) :
    Spelled line [onLine line kind text] text where
  lines := by simp [onLine]
  no_feed := by
    obtain ⟨c, cs, rfl, hopens, hcs⟩ := opens_of_spells hspells
    rw [List.count_eq_zero, List.mem_cons]
    rintro (rfl | hfeed)
    · exact hkind (LexemeKind.eq_of_asCut hopens.kind_eq.symm (by decide))
    · have hcut := LexemeKind.eq_newlines_of_continues (hcs _ hfeed)
      exact hkind (LexemeKind.eq_of_asCut hcut (by decide))
  split hline hrest := Split.lexeme (l := onLine line kind text) hspells hline hrest

end Spelled

end Lexeme

/-! ## Sentences of printed equations -/

/-- A term as expressions print it. -/
structure Equation.Term.IsStandard (t : Equation.Term) : Prop where
  coefficient : ∀ text ∈ t.coefficient, LexemeKind.digits.Spells text.toList
  words : ∀ x ∈ t.factors, LexemeKind.word.Spells x.toList
  degree : t.factors.length = 1 ∨ t.factors.length = 2

theorem Expression.Printable.isStandard {maximum : Int} {e : Expression} (h : e.Printable maximum) :
    ∀ t ∈ e.writtenTerms, t.IsStandard := by
  have hcoefficient : ∀ v ∈ e.coefficients, ∀ text ∈ writtenCoefficient v,
      LexemeKind.digits.Spells text.toList := by
    intro v hv text htext
    obtain ⟨n, rfl, -, -⟩ := h.coefficients v hv
    rw [writtenCoefficient_int] at htext
    split_ifs at htext with hone
    · cases htext
    · obtain rfl := Option.mem_some.mp htext
      exact spells_repr n
  have hword : ∀ x ∈ e.wireNames, LexemeKind.word.Spells x.toList := fun x hx =>
    h.names x (List.mem_append_right _ hx)
  obtain ⟨quadratic, linear, rhs, line⟩ := e
  refine List.forall_mem_append.mpr ⟨?_, ?_⟩
  · cases quadratic with
    | none => simp
    | some t =>
      intro u hu
      obtain rfl : u = t.written := by simpa using hu
      have hleft := hword t.left (by simp [wireNames])
      have hright := hword t.right (by simp [wireNames])
      have hnumber := hcoefficient t.coefficient (by simp [Expression.coefficients])
      exact ⟨hnumber, by simpa [QuadraticTerm.written] using ⟨hleft, hright⟩, Or.inr rfl⟩
  · intro u hu
    obtain ⟨t, ht, rfl⟩ := List.mem_map.mp hu
    have hname := hword t.name (List.mem_append_right _ (List.mem_map_of_mem ht))
    have hnumber := hcoefficient t.coefficient (List.mem_append_right _ (List.mem_map_of_mem ht))
    exact ⟨hnumber, by simpa [LinearTerm.written] using hname, Or.inl rfl⟩

namespace Grammar

open Lexeme (Spelled onLine)

theorem name_onLine (line : Nat) (kind : LexemeKind) (x : String) :
    (onLine line kind x.toList).name = x :=
  String.ofList_toList

theorem exists_coefficient (line : Nat) {c : Option String}
    (h : ∀ text ∈ c, LexemeKind.digits.Spells text.toList) :
    ∃ ls, Spelled line ls (c.getD "").toList ∧ Coefficient ls c := by
  cases c with
  | none => exact ⟨[], .nil line, .absent⟩
  | some text =>
    have hplain := Coefficient.plain (c := onLine line .digits text.toList) rfl
    rw [name_onLine] at hplain
    exact ⟨_, .lexeme (h text rfl) (by decide), hplain⟩

theorem exists_factors (line : Nat) {names : List String}
    (h : ∀ x ∈ names, LexemeKind.word.Spells x.toList)
    (hlength : names.length = 1 ∨ names.length = 2) :
    ∃ ls, Spelled line ls ("*".intercalate names).toList ∧ Factors ls names := by
  have hword : ∀ x ∈ names, Spelled line [onLine line .word x.toList] x.toList := fun x hx =>
    .lexeme (h x hx) (by decide)
  rcases hlength with hlength | hlength
  · obtain ⟨x, rfl⟩ := List.length_eq_one_iff.mp hlength
    have hlinear := Factors.linear (x := onLine line .word x.toList) rfl
    rw [name_onLine] at hlinear
    refine ⟨_, ?_, hlinear⟩
    rw [String.intercalate_singleton]
    exact hword x (by simp)
  · obtain ⟨x, y, rfl⟩ := List.length_eq_two.mp hlength
    have hquadratic := @Factors.quadratic (onLine line .word x.toList) (onLine line .star ['*'])
      (onLine line .word y.toList) rfl rfl rfl
    rw [name_onLine, name_onLine] at hquadratic
    refine ⟨_, ?_, hquadratic⟩
    have hstar : Spelled line [onLine line .star ['*']] "*".toList := .lexeme rfl (by decide)
    rw [String.intercalate_cons_cons, String.intercalate_singleton, String.toList_append,
      String.toList_append]
    exact ((hword x (by simp)).append hstar).append (hword y (by simp))

theorem exists_term (line : Nat) {t : Equation.Term} (h : t.IsStandard) :
    ∃ ls, Spelled line ls t.body.toList ∧ Term ls t.coefficient t.factors := by
  obtain ⟨cs, hcs, hc⟩ := exists_coefficient line h.coefficient
  obtain ⟨fs, hfs, hf⟩ := exists_factors line h.words h.degree
  refine ⟨cs ++ fs, ?_, .mk hc hf⟩
  rw [Equation.Term.body, String.toList_append]
  exact hcs.append hfs

/-- The lexeme of a sign. -/
def signOn (line : Nat) (negative : Bool) : Lexeme :=
  onLine line .sign [if negative then '-' else '+']

theorem isMinus_signOn (line : Nat) (negative : Bool) :
    (signOn line negative).isMinus = negative := by
  cases negative <;> rfl

theorem spelled_sign (line : Nat) (negative : Bool) :
    Spelled line [signOn line negative] [if negative then '-' else '+'] := by
  refine .lexeme ?_ (by decide)
  cases negative
  · exact Or.inl rfl
  · exact Or.inr rfl

/-- Between terms a sign has blanks around it. -/
theorem spelled_infixSign (line : Nat) (negative : Bool) :
    Spelled line [signOn line negative] (if negative then " - " else " + ").toList := by
  have hblank : Spelled line [] [' '] := .gap rfl
  have hsign := (hblank.append (spelled_sign line negative)).append hblank
  cases negative <;> exact hsign

theorem exists_signedTerms (line : Nat) {ts : List Equation.Term} (h : ∀ t ∈ ts, t.IsStandard) :
    ∃ ls, Spelled line ls (String.join (ts.map fun t =>
      (if t.negative then " - " else " + ") ++ t.body)).toList ∧ SignedTerms ls ts := by
  induction ts with
  | nil => exact ⟨[], .nil line, .nil⟩
  | cons t ts ih =>
    obtain ⟨ht, hts⟩ := List.forall_mem_cons.mp h
    obtain ⟨ls, hls, hterm⟩ := exists_term line ht
    obtain ⟨rest, hrest, hterms⟩ := ih hts
    have hsigned := SignedTerms.cons (s := signOn line t.negative) rfl hterm hterms
    rw [isMinus_signOn] at hsigned
    refine ⟨_, ?_, hsigned⟩
    rw [List.map_cons, String.join_cons, String.toList_append, String.toList_append]
    exact ((spelled_infixSign line t.negative).append hls).append hrest

theorem exists_left (line : Nat) {ts : List Equation.Term} (h : ∀ t ∈ ts, t.IsStandard)
    (hne : ts ≠ []) :
    ∃ ls, Spelled line ls (Expression.leftText (ts.map fun t => (t.negative, t.body))).toList ∧
      Left ls ts := by
  obtain ⟨t, ts, rfl⟩ := List.exists_cons_of_ne_nil hne
  obtain ⟨ht, hts⟩ := List.forall_mem_cons.mp h
  obtain ⟨ls, hls, hterm⟩ := exists_term line ht
  obtain ⟨rest, hrest, hterms⟩ := exists_signedTerms line hts
  have htext := hls.append hrest
  rw [List.map_cons, Expression.leftText, List.map_map, String.append_assoc, String.toList_append,
    String.toList_append]
  obtain ⟨negative, c, names⟩ := t
  cases negative with
  | false => exact ⟨_, htext, .unsigned hterm hterms⟩
  | true =>
    have hminus : Spelled line [signOn line true] "-".toList := spelled_sign line true
    have hsigned := Left.signed (s := signOn line true) rfl hterm hterms
    exact ⟨_, hminus.append htext, hsigned⟩

theorem exists_right (line : Nat) {rhs : Option PublicTerm}
    (h : ∀ p ∈ rhs, LexemeKind.word.Spells p.name.toList) :
    ∃ ls, Spelled line ls (Expression.rightText rhs).toList ∧ Right ls rhs := by
  cases rhs with
  | none =>
    have hzero : Spelled line [onLine line .zero ['0']] "0".toList := .lexeme rfl (by decide)
    exact ⟨_, hzero, .zero rfl⟩
  | some p =>
    obtain ⟨negative, name⟩ := p
    have hword : Spelled line [onLine line .word name.toList] name.toList :=
      .lexeme (h _ rfl) (by decide)
    cases negative with
    | false =>
      have hplain := Right.plain (x := onLine line .word name.toList) rfl
      rw [name_onLine] at hplain
      refine ⟨_, ?_, hplain⟩
      show Spelled line _ ("" ++ name).toList
      rw [String.toList_append]
      exact hword
    | true =>
      have hsigned :=
        Right.signed (s := signOn line true) (x := onLine line .word name.toList) rfl rfl
      rw [name_onLine] at hsigned
      refine ⟨_, ?_, hsigned⟩
      show Spelled line _ ("-" ++ name).toList
      rw [String.toList_append]
      exact (spelled_sign line true).append hword

/-- **The text of an expression is a sentence for its equation.** -/
theorem exists_statement (line : Nat) {maximum : Int} {e : Expression} (h : e.Printable maximum) :
    ∃ ls, Spelled line ls e.spelling.toList ∧ Statement ls (e.written line) := by
  have hne : e.writtenTerms ≠ [] := by
    obtain ⟨quadratic, linear, rhs, line⟩ := e
    rcases h.nonempty with hquadratic | hlinear
    · obtain ⟨t, rfl⟩ := Option.isSome_iff_exists.mp hquadratic
      simp [Expression.writtenTerms]
    · simpa [Expression.writtenTerms] using fun _ => hlinear
  have hpublic : ∀ p ∈ e.rhs, LexemeKind.word.Spells p.name.toList := by
    intro p hp
    refine h.names p.name (List.mem_append_left _ ?_)
    rw [Option.mem_def.mp hp]
    exact List.mem_cons_self
  obtain ⟨left, hleftText, hleft⟩ := exists_left line h.isStandard hne
  obtain ⟨right, hrightText, hright⟩ := exists_right line hpublic
  have hblank : Spelled line [] [' '] := .gap rfl
  have hequals : Spelled line [onLine line .equals ['=']] ['='] := .lexeme rfl (by decide)
  have hmiddle : Spelled line [onLine line .equals ['=']] " = ".toList :=
    (hblank.append hequals).append hblank
  obtain ⟨first, hfirst⟩ := hleft.exists_first
  have heq : (onLine line .equals ['=']).kind = .equals := rfl
  have hstatement := Statement.mk hleft hfirst heq hright
  rw [hleftText.lines first (List.mem_of_mem_head? hfirst)] at hstatement
  refine ⟨_, ?_, hstatement⟩
  rw [Expression.spelling, String.append_assoc, String.toList_append, String.toList_append]
  exact hleftText.append (hmiddle.append hrightText)

/-! ## Programs of printed equations -/

/-- A separator and the lexeme that it makes. -/
structure Separates (sep : String) (kind : LexemeKind) : Prop where
  spells : kind.Spells sep.toList
  kind_eq : kind = .newlines ∨ kind = .semicolon

/-- Equations that are `k` lines apart. -/
theorem mapIdx_written (line k : Nat) (e : Expression) (es : List Expression) :
    (e :: es).mapIdx (fun i e => e.written (line + i * k)) =
      e.written line :: es.mapIdx fun i e => e.written (line + k + i * k) := by
  have hlines : (fun i (e : Expression) => e.written (line + (i + 1) * k)) =
      fun i e => e.written (line + k + i * k) := by
    funext i e
    rw [Nat.succ_mul, Nat.add_assoc line, Nat.add_comm k]
  rw [List.mapIdx_cons, hlines, Nat.zero_mul, Nat.add_zero]

/-- **Printed expressions between separators are a program.** The lines of the equations tell the
line feeds among the separators. -/
theorem exists_body {sep : String} {kind : LexemeKind} (hsep : Separates sep kind) {maximum : Int}
    {es : List Expression} (h : ∀ e ∈ es, e.Printable maximum) {line : Nat} {before : List Char}
    (hline : line = 1 + before.count '\n') :
    ∃ ls, Lexeme.Split before ls (sep.intercalate (es.map Expression.spelling)).toList ∧
      Body ls (es.mapIdx fun i e => e.written (line + i * sep.toList.count '\n')) := by
  induction es generalizing line before with
  | nil => exact ⟨[], .nil (by simp), .nil⟩
  | cons e es ih =>
    obtain ⟨he, hes⟩ := List.forall_mem_cons.mp h
    obtain ⟨ls, htext, hstatement⟩ := exists_statement line he
    -- there is a separator in front of a further expression only
    cases es with
    | nil =>
      have hnil : Lexeme.Split (before ++ e.spelling.toList) [] [] := .nil (by simp)
      have hsplit := htext.split hline hnil
      rw [List.append_nil, List.append_nil] at hsplit
      refine ⟨ls, hsplit, .last ?_⟩
      simpa using hstatement
    | cons d es =>
      have hline' : line = 1 + (before ++ e.spelling.toList).count '\n' := by
        rw [List.count_append, htext.no_feed]
        exact hline
      have hnext : line + sep.toList.count '\n' =
          1 + (before ++ e.spelling.toList ++ sep.toList).count '\n' := by
        rw [List.count_append, ← Nat.add_assoc, ← hline']
      obtain ⟨rest, hrest, hbody⟩ := ih hes hnext
      have hsplit := htext.split hline
        (Lexeme.Split.lexeme (l := onLine line kind sep.toList) hsep.spells hline' hrest)
      have hseparators : Separators [onLine line kind sep.toList] := by
        intro l hl
        rw [List.mem_singleton.mp hl]
        exact hsep.kind_eq
      refine ⟨ls ++ onLine line kind sep.toList :: rest, ?_, ?_⟩
      · rw [List.map_cons, List.map_cons, String.intercalate_cons_cons, String.append_assoc,
          String.toList_append, String.toList_append]
        exact hsplit
      · rw [mapIdx_written]
        exact .cons hstatement (List.cons_ne_nil _ _) hseparators hbody

end Grammar

namespace Expression

open Grammar (Separates exists_body)

/-- Printed expressions between separators are read as their equations. -/
theorem parse_intercalate {sep : String} {kind : LexemeKind} (hsep : Separates sep kind)
    {maximum : Int} {es : List Expression} (h : ∀ e ∈ es, e.Printable maximum) :
    Equation.parse (sep.intercalate (es.map spelling)) =
      .ok (es.mapIdx fun i e => e.written (1 + i * sep.toList.count '\n')) := by
  have hstart : 1 = 1 + ([] : List Char).count '\n' := rfl
  obtain ⟨ls, hsplit, hbody⟩ := exists_body hsep h hstart
  refine Equation.parseChars_of_derives ⟨ls, ?_, hbody.program⟩
  rw [hsplit.withoutComments_eq]
  exact hsplit

/-- The equations are those of the expressions: one for each of them in order, from which it is
normalised again, apart from its line. -/
structure ReadBack (maximum : Int) (es : List Expression) (qs : List Equation) : Prop where
  length_eq : qs.length = es.length
  ofEquation_eq : ∀ (i : Nat) (e : Expression) (q : Equation), es[i]? = some e → qs[i]? = some q →
    ofEquation q i (.int maximum) = .ok { e with line := q.line }

theorem readBack_written {maximum : Int} {es : List Expression} (h : ∀ e ∈ es, e.Printable maximum)
    (line : Nat → Nat) : ReadBack maximum es (es.mapIdx fun i e => e.written (line i)) where
  length_eq := List.length_mapIdx
  ofEquation_eq := by
    intro i e q he hq
    rw [List.getElem?_mapIdx, he, Option.map_some, Option.some.injEq] at hq
    subst hq
    exact ofEquation_written (h e (List.mem_of_getElem? he)).coefficients (line i) i

/-- **Printing and reading are inverse on programs.** Expressions are printed, and if they stand one
to a line they are read back, each with its line; between semicolons they are read back too. -/
theorem parse_printed (maximum : Int) (es : List Expression)
    (h : ∀ e ∈ es, e.Printable maximum) :
    ∃ texts, es.mapM toText = .ok texts ∧
      (∃ qs, Equation.parse ("\n".intercalate texts) = .ok qs ∧ ReadBack maximum es qs ∧
        ∀ (i : Nat) (q : Equation), qs[i]? = some q → q.line = some ((i : Int) + 1)) ∧
      ∃ qs, Equation.parse (";".intercalate texts) = .ok qs ∧ ReadBack maximum es qs := by
  have hlines : Separates "\n" .newlines := ⟨⟨by simp, by simp⟩, Or.inl rfl⟩
  have hsemicolons : Separates ";" .semicolon := ⟨rfl, Or.inr rfl⟩
  have htexts : es.mapM toText = .ok (es.map spelling) := by
    rw [mapM_eq_ok, List.forall₂_map_right_iff, List.forall₂_same]
    exact fun e he => (h e he).toText_eq
  refine ⟨_, htexts, ⟨_, parse_intercalate hlines h, readBack_written h _, ?_⟩,
    _, parse_intercalate hsemicolons h, readBack_written h _⟩
  intro i q hq
  rw [List.getElem?_mapIdx, Option.map_eq_some_iff] at hq
  obtain ⟨e, -, rfl⟩ := hq
  have hcount : ("\n".toList).count '\n' = 1 := rfl
  rw [hcount, Nat.mul_one, Nat.add_comm]
  rfl

/-- Signs in all places, and coefficients that are left out, zero, and of two digits. -/
def printedExample : List Expression :=
  [⟨some ⟨true, .int 1, "x", "y"⟩, [⟨false, .int 0, "z"⟩, ⟨true, .int 12, "x"⟩],
      some ⟨true, "w"⟩, none⟩,
    ⟨none, [⟨false, .int 7, "_a1"⟩], none, none⟩]

theorem parse_printed_example :
    (∀ e ∈ printedExample, e.Printable 12) ∧
      printedExample.mapM toText = .ok ["-x*y + 0z - 12x = -w", "7_a1 = 0"] ∧
      ∃ qs, Equation.parse "-x*y + 0z - 12x = -w\n7_a1 = 0" = .ok qs ∧
        ReadBack 12 printedExample qs := by
  have hprintable : ∀ e ∈ printedExample, e.Printable 12 := by
    refine List.forall_mem_cons.mpr ⟨⟨Or.inl rfl, ?_, ?_⟩,
      List.forall_mem_singleton.mpr ⟨Or.inr (by simp), ?_, ?_⟩⟩
    · show ∀ x ∈ ["w", "x", "y", "z", "x"], LexemeKind.word.Spells x.toList
      simp only [List.forall_mem_cons]
      refine ⟨?_, ?_, ?_, ?_, ?_, by simp⟩ <;> exact ⟨_, [], rfl, rfl, by simp⟩
    · show ∀ v ∈ [Value.int 1, .int 0, .int 12], v.IsCoefficient 12
      simp only [List.forall_mem_cons]
      exact ⟨⟨1, rfl, by decide, by decide⟩, ⟨0, rfl, by decide, by decide⟩,
        ⟨12, rfl, by decide, by decide⟩, by simp⟩
    · exact List.forall_mem_singleton.mpr ⟨'_', ['a', '1'], rfl, rfl,
        List.forall_mem_cons.mpr ⟨rfl, List.forall_mem_singleton.mpr rfl⟩⟩
    · exact List.forall_mem_singleton.mpr ⟨7, rfl, by decide, by decide⟩
  have htexts : printedExample.mapM toText = .ok ["-x*y + 0z - 12x = -w", "7_a1 = 0"] :=
    eq_ok_of_toOption (by decide +kernel)
  obtain ⟨texts, hprinted, ⟨qs, hparse, hback, -⟩, -⟩ :=
    parse_printed 12 printedExample hprintable
  obtain rfl := Except.ok.inj (htexts.symm.trans hprinted)
  exact ⟨hprintable, htexts, qs, hparse, hback⟩

end Expression

end PlonkGates
