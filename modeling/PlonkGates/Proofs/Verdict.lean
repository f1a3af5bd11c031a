import PlonkGates.Circuit.Listing
import PlonkGates.Proofs.Satisfaction
import PlonkGates.Session

/-!
# The lines about equations that do not hold

A program text gives equations, these give expressions, and the expressions give gates. The lines
that are written about gates that do not hold are told here from the equations alone: there is one
for each equation that is not true of the supplied values, in the order of the source
(`exists_failures`). Of several values for one name the last one counts, and a name without a value
is zero.
-/

namespace PlonkGates

/-! ## Supplied values -/

/-- The last value that assignments give to a name, or zero. -/
def Assignment.last (values : List Assignment) (name : String) : Int :=
  (((values.filter (·.name = name)).getLast?).map (·.value)).getD 0

/-- The assignments as they are supplied to a table. -/
def Assignment.pairs (values : List Assignment) : List (Value × Value) :=
  values.map fun a => (.text a.name, .int a.value)

theorem Assignment.holdsText_pairs {values : List Assignment} :
    ∀ pair ∈ pairs values, pair.2.holdsText = false := by
  intro pair hpair
  obtain ⟨a, -, rfl⟩ := List.mem_map.mp hpair
  rfl

theorem Session.pairsOf_map_some (values : List Assignment) :
    pairsOf (values.map some) = Assignment.pairs values := by
  induction values with
  | nil => rfl
  | cons a values ih => rw [List.map_cons, pairsOf, ih]; rfl

namespace VariableTable

variable {t : VariableTable} {values : List Assignment}

/-- Values for names that are in the table are accepted. -/
theorem setValues_pairs (h : ∀ a ∈ values, (t.find? a.name).isSome) :
    t.setValues (Assignment.pairs values) =
      .ok ⟨t.field, putAll t.entries
        (values.map fun a => (a.name, .number (t.field.reduce a.value)))⟩ := by
  refine setValues_ok_iff.mpr ⟨_, ?_, rfl⟩
  rw [Assignment.pairs, List.forall₂_map_left_iff, List.forall₂_map_right_iff, List.forall₂_same]
  intro a ha
  obtain ⟨v, hv⟩ := Option.isSome_iff_exists.mp (h a ha)
  have hget : t.get? (.text a.name) = .ok (some v) := congrArg Except.ok hv
  rw [readPair, hget, ok_bind]
  dsimp only
  rw [PrimeField.element_int, ok_bind, name_of_find? hv]

theorem lastUpdate_map (F : PrimeField) (values : List Assignment) (name : String) :
    lastUpdate (values.map fun a => (a.name, .number (F.reduce a.value))) name =
      ((values.filter (·.name = name)).getLast?).map fun a => .number (F.reduce a.value) := by
  rw [lastUpdate, List.filter_map, List.getLast?_map, Option.map_map]
  rfl

/-- **Each name has the residue of the last value for it.** -/
theorem valuation_setValues {t' : VariableTable} (hzero : ∀ name, t.valuation name = 0)
    (h : ∀ a ∈ values, (t.find? a.name).isSome)
    (hset : t.setValues (Assignment.pairs values) = .ok t') (name : String) :
    t'.valuation name ≡ Assignment.last values name [ZMOD t.field.order] := by
  rw [setValues_pairs h] at hset
  cases hset
  have hbefore := hzero name
  unfold valuation at hbefore ⊢
  rw [find?, find?_putAll, lastUpdate_map, Assignment.last]
  rw [find?] at hbefore
  cases hv : t.entries.find? (·.name = name) with
  | none =>
    -- no value was supplied for a name that is not there
    have hnone : (values.filter (·.name = name)).getLast? = none := by
      rw [List.getLast?_eq_none_iff, List.filter_eq_nil_iff]
      intro a ha hname
      have hfound := h a ha
      rw [of_decide_eq_true hname, find?, hv] at hfound
      cases hfound
    rw [hnone]
    exact Int.ModEq.refl 0
  | some v =>
    rw [hv] at hbefore
    cases (values.filter (·.name = name)).getLast? with
    | none =>
      show v.value.toInt ≡ 0 [ZMOD _]
      rw [show v.value.toInt = 0 from hbefore]
    | some a => exact Element.toInt_reduce_modEq

theorem valuation_derive (F : PrimeField) (es : List Expression) (name : String) :
    (derive F es).valuation name = 0 := by
  unfold valuation
  cases hv : (derive F es).find? name with
  | none => rfl
  | some v =>
    show v.value.toInt = 0
    rw [value_mem_derive (mem_of_find? hv)]
    simp [Element.toInt, PrimeField.zero, PrimeField.reduce]

end VariableTable

/-! ## Programs -/

namespace Expression

/-- The expressions of a program, one for each equation and its position. -/
theorem listOfEquations_ok {maximum : Value} {index : Nat} {qs : List Equation}
    {es : List Expression} (h : listOfEquations maximum index qs = .ok es) :
    List.Forall₂ (fun x e => ofEquation x.1 x.2 maximum = .ok e) (qs.zipIdx index) es := by
  induction qs generalizing index es with
  | nil =>
    cases h
    exact .nil
  | cons q qs ih =>
    obtain ⟨e, he, h⟩ := bind_eq_ok.mp h
    obtain ⟨rest, hrest, h⟩ := bind_eq_ok.mp h
    cases h
    rw [List.zipIdx_cons]
    exact .cons he (ih hrest)

theorem isIntegral_listOfEquations {maximum : Value} {index : Nat} {qs : List Equation}
    {es : List Expression} (h : listOfEquations maximum index qs = .ok es) :
    ∀ e ∈ es, e.IsIntegral := by
  intro e he
  obtain ⟨x, -, hx⟩ := exists_of_forall₂ (listOfEquations_ok h) he
  exact isIntegral_ofEquation hx

/-- Coefficients that were read can be written. -/
theorem isWritable_listOfEquations {maximum : Value} {index : Nat} {qs : List Equation}
    {es : List Expression} (h : listOfEquations maximum index qs = .ok es) :
    ∀ e ∈ es, ∀ v ∈ e.coefficients, v.isWritable = true := by
  intro e he v hv
  obtain ⟨x, -, hx⟩ := exists_of_forall₂ (listOfEquations_ok h) he
  obtain ⟨z, rfl, hz⟩ := exists_int_ofEquation hx v hv
  exact Value.isWritable_int.mpr hz

/-- Names of the equations are names of the expressions. -/
theorem exists_mem_names {maximum : Value} {index : Nat} {qs : List Equation}
    {es : List Expression} (h : listOfEquations maximum index qs = .ok es) {q : Equation}
    (hq : q ∈ qs) {name : String} (hname : name ∈ q.names) : ∃ e ∈ es, name ∈ e.names := by
  obtain ⟨i, hi⟩ := List.mem_iff_getElem?.mp hq
  have hmem : (q, index + i) ∈ qs.zipIdx index :=
    List.mk_add_mem_zipIdx_iff_getElem?.mpr hi
  obtain ⟨e, he, hx⟩ := exists_of_forall₂ (listOfEquations_ok h).flip hmem
  exact ⟨e, he, (mem_names_ofEquation hx).mpr hname⟩

end Expression

theorem Circuit.Accepted.isSome_find? {c : Circuit} (h : c.Accepted) {e : Expression}
    (he : e ∈ c.expressions) {name : String} (hname : name ∈ e.names) :
    (c.table.find? name).isSome := by
  have hmention : ∃ role, (name, role) ∈ VariableTable.mentions e := by
    rcases List.mem_append.mp hname with hpublic | hwire
    · obtain ⟨p, hp, rfl⟩ := Option.map_eq_some_iff.mp (Option.mem_toList.mp hpublic)
      exact ⟨.publicInput, VariableTable.mem_mentions.mpr (Or.inl ⟨rfl, p, hp, rfl⟩)⟩
    · exact ⟨.witness, VariableTable.mem_mentions.mpr (Or.inr ⟨rfl, hwire⟩)⟩
  obtain ⟨role, hrole⟩ := hmention
  obtain ⟨v, hv, -⟩ := h.exists_variable (List.mem_flatMap.mpr ⟨e, he, hrole⟩)
  rw [hv]
  rfl

/-- Values for the names of a program are accepted, and each name gets the last one for it. -/
theorem Circuit.exists_supplied {F : PrimeField} {es : List Expression} {c : Circuit}
    (hc : ofExpressions F es = .ok c) {values : List Assignment}
    (hnames : ∀ a ∈ values, ∃ e ∈ es, a.name ∈ e.names) :
    ∃ table, c.setValues (Assignment.pairs values) = .ok ⟨F, es, table⟩ ∧
      Accepted ⟨F, es, table⟩ ∧ table.HoldsNumbers ∧
      ∀ name, table.valuation name ≡ Assignment.last values name [ZMOD F.order] := by
  have haccepted := accepted_ofExpressions hc
  have hnumbers := holdsNumbers_ofExpressions hc
  obtain ⟨-, rfl⟩ := ofExpressions_ok hc
  have hfound : ∀ a ∈ values, ((VariableTable.derive F es).find? a.name).isSome := by
    intro a ha
    obtain ⟨e, he, hname⟩ := hnames a ha
    exact haccepted.isSome_find? he hname
  obtain ⟨table, htable⟩ : ∃ table,
      (VariableTable.derive F es).setValues (Assignment.pairs values) = .ok table :=
    ⟨_, VariableTable.setValues_pairs hfound⟩
  have hset : Circuit.setValues ⟨F, es, .derive F es⟩ (Assignment.pairs values) =
      .ok ⟨F, es, table⟩ := by
    rw [Circuit.setValues_eq, htable, ok_map]
  exact ⟨table, hset, haccepted.setValues hset,
    holdsNumbers_setValues hnumbers Assignment.holdsText_pairs hset,
    VariableTable.valuation_setValues (VariableTable.valuation_derive F es) hfound htable⟩

theorem Circuit.parse_ok {settings : Settings} {text : String} {qs : List Equation} {c : Circuit}
    (hparse : Equation.parse text = .ok qs) (hc : Circuit.parse settings text = .ok c) :
    ∃ es, Expression.listOfEquations (.int settings.maxCoefficient) 0 qs = .ok es ∧
      ofExpressions settings.field es = .ok c := by
  rw [Circuit.parse, hparse, ok_bind] at hc
  exact bind_eq_ok.mp hc

/-! ## Lines -/

/-- The equations that are not true modulo the order, with their positions. -/
def Equation.failing (F : PrimeField) (v : String → Int) (qs : List Equation) :
    List (Equation × Nat) :=
  qs.zipIdx.filter fun x => ¬ x.1.HoldsIn F v

/-- The line about an equation that does not hold. It shows the number of its line, the equation as
it was normalised, and the representative closest to zero of its left side minus its right side. -/
def Equation.Reported (F : PrimeField) (maximum : Value) (v : String → Int) (x : Equation × Nat)
    (line : String) : Prop :=
  ∃ (number : Nat) (e : Expression) (text : String) (residue : Int),
    x.1.line = some (number : Int) ∧ Expression.ofEquation x.1 x.2 maximum = .ok e ∧
    e.toText = .ok text ∧
    line = "line " ++ Text.numeral number ++ ": " ++ text ++ " (gate evaluates to " ++
      Text.numeral residue ++ ")" ∧
    residue ≡ x.1.difference v [ZMOD F.order] ∧
    -(F.order : Int) < 2 * residue ∧ 2 * residue ≤ F.order ∧ residue ≠ 0

theorem failureText_eq {index : Nat} {e : Expression} {number residue : Int} {text : String}
    (hline : e.line = some number) (hnumber : Text.IsShort number) (htext : e.toText = .ok text)
    (hresidue : Text.IsShort residue) :
    failureText index e residue = .ok ("line " ++ Text.numeral number ++ ": " ++ text ++
      " (gate evaluates to " ++ Text.numeral residue ++ ")") := by
  rw [failureText, Expression.placeText, hline]
  dsimp only
  rw [Text.writeInteger_of_isShort hnumber, ok_map, ok_bind, htext, ok_bind,
    Text.writeInteger_of_isShort hresidue, ok_bind]

theorem Residue.isShort_signed {x : Residue} (h : Text.IsShort x.field.order) :
    Text.IsShort x.signed := by
  obtain ⟨hlow, hhigh⟩ := x.signed_window
  exact Text.isShort_of_natAbs_le (by omega) h

/-- **There is a line for each equation that does not hold.** -/
theorem failureTexts_ofEquations {F : PrimeField} (hF : Text.IsShort F.order) {maximum : Value}
    {v w : String → Int} (hvw : ∀ name, w name ≡ v name [ZMOD F.order]) {index : Nat}
    {qs : List Equation} (hlines : ∀ q ∈ qs, ∃ n : Nat, q.line = some (n : Int) ∧ Text.IsShort n)
    {es : List Expression}
    (h : List.Forall₂ (fun x e => Expression.ofEquation x.1 x.2 maximum = .ok e)
      (qs.zipIdx index) es) :
    ∃ lines,
      failureTexts index es (es.map fun e => .number (F.reduce (e.difference w))) = .ok lines ∧
      List.Forall₂ (Equation.Reported F maximum v)
        ((qs.zipIdx index).filter fun x => ¬ x.1.HoldsIn F v) lines := by
  induction qs generalizing index es with
  | nil =>
    cases h
    exact ⟨[], rfl, .nil⟩
  | cons q qs ih =>
    rw [List.zipIdx_cons] at h ⊢
    obtain ⟨e, rest, he, hrest, rfl⟩ := List.forall₂_cons_left_iff.mp h
    obtain ⟨⟨number, hnumber, hshort⟩, hlines⟩ := List.forall_mem_cons.mp hlines
    obtain ⟨lines, hmore, hreported⟩ := ih hlines hrest
    have hdifference : e.difference w ≡ q.difference v [ZMOD F.order] := by
      rw [← Expression.difference_ofEquation he v]
      exact Expression.difference_modEq fun name _ => hvw name
    have hzero : (Element.number (F.reduce (e.difference w))).isZero = true ↔ q.HoldsIn F v :=
      Element.isZero_reduce.trans hdifference.dvd_iff
    rw [List.map_cons, failureTexts]
    -- the loop skips a gate exactly where the filter skips its equation
    by_cases hholds : q.HoldsIn F v
    · rw [if_pos (hzero.mpr hholds), List.filter_cons_of_neg (by simpa using hholds)]
      exact ⟨lines, hmore, hreported⟩
    · obtain ⟨text, htext⟩ := Expression.exists_toText_ofEquation he
      have hline := (Expression.line_ofEquation he).trans hnumber
      have hsigned : (F.reduce (e.difference w)).signed ≠ 0 := fun hnil =>
        hholds (hzero.mp ((Residue.signed_eq_zero_iff _).mp hnil))
      have hwindow := (F.reduce (e.difference w)).signed_window
      rw [if_neg (fun hx => hholds (hzero.mp hx)), List.filter_cons_of_pos (by simpa using hholds),
        hmore]
      refine ⟨_, bind_eq_ok.mpr ⟨_, rfl, bind_eq_ok.mpr ⟨_,
        failureText_eq hline hshort htext (Residue.isShort_signed hF), rfl⟩⟩, .cons ?_ hreported⟩
      exact ⟨number, e, text, _, hnumber, he, htext, rfl,
        (F.signed_reduce_modEq _).trans hdifference, hwindow.1, hwindow.2, hsigned⟩

/-- **The lines about a program are told by its equations and the supplied values.** -/
theorem exists_failures {settings : Settings} (horder : Text.IsShort settings.field.order)
    {text : String} {qs : List Equation} {c : Circuit} (hparse : Equation.parse text = .ok qs)
    (hlines : ∀ q ∈ qs, ∃ n : Nat, q.line = some (n : Int) ∧ Text.IsShort n)
    (hc : Circuit.parse settings text = .ok c) {values : List Assignment}
    (hnames : ∀ a ∈ values, ∃ q ∈ qs, a.name ∈ q.names) :
    ∃ d l lines, c.setValues (Assignment.pairs values) = .ok d ∧ d.lower = .ok l ∧
      d.failures l = .ok lines ∧
      List.Forall₂
        (Equation.Reported settings.field (.int settings.maxCoefficient) (Assignment.last values))
        (Equation.failing settings.field (Assignment.last values) qs) lines := by
  obtain ⟨es, hes, hof⟩ := Circuit.parse_ok hparse hc
  have hnames : ∀ a ∈ values, ∃ e ∈ es, a.name ∈ e.names := by
    intro a ha
    obtain ⟨q, hq, hname⟩ := hnames a ha
    exact Expression.exists_mem_names hes hq hname
  obtain ⟨table, hset, hd, hnumbers, hvaluation⟩ := Circuit.exists_supplied hof hnames
  have hint := Expression.isIntegral_listOfEquations hes
  obtain ⟨l, hl⟩ := hd.exists_lower hint hnumbers
  obtain ⟨lines, hfailures, hreported⟩ :=
    failureTexts_ofEquations horder hvaluation hlines (Expression.listOfEquations_ok hes)
  refine ⟨_, l, lines, hset, hl, ?_, hreported⟩
  rw [Circuit.failures, hd.leftSides_eq hnumbers hint hl, ok_bind]
  exact hfailures

end PlonkGates
