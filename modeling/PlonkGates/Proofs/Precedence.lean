import PlonkGates.Proofs.Verdict

/-!
# Which fault of a program is reported

A program may break many rules at once, and one fault is reported. Equations are normalised first,
and the first of them that cannot be is reported (`listOfEquations_error`). If all are, the rules
are looked at by their numbers, each over the whole program: the violation that is reported is one
of the lowest rule that is broken anywhere, and of the first equation that breaks it (`Reported`).
-/

namespace PlonkGates

/-- The number of the rule that is broken. A second quadratic term comes before all rules on
programs: it is found when an equation is normalised. -/
def Rule.number : Rule → Nat
  | manyQuadratic .. => 0
  | sameOperands .. => 1
  | manyNames .. => 2
  | manyWires .. => 2
  | repeatedLinear .. => 3
  | publicOnWire .. => 4
  | roleConflict .. => 5

namespace Expression

variable {e : Expression} {es : List Expression} {n : Nat} {v : Violation}

/-! ## Broken rules -/

/-- The equation breaks one of the rules that concern it alone. -/
def Breaks (e : Expression) : Nat → Prop
  -- a variable is multiplied by itself
  | 1 => ∃ t, e.quadratic = some t ∧ t.left = t.right
  -- there are too many variables, on wires or in all
  | 2 => 3 < e.wireNames.toFinset.card ∨ 4 < e.names.toFinset.card
  -- a variable occurs in two linear terms
  | 3 => ¬ (e.linear.map (·.name)).Nodup
  -- the public input is on a wire
  | 4 => ∃ p, e.rhs = some p ∧ p.name ∈ e.wireNames
  | _ => False

/-- A name is a public input in one equation and on a wire in another one. -/
def RolesClash (es : List Expression) : Prop :=
  ∃ (i j : Nat) (d e : Expression) (p : PublicTerm), i ≠ j ∧ es[i]? = some d ∧ es[j]? = some e ∧
    d.rhs = some p ∧ p.name ∈ e.wireNames

/-- The program breaks a rule somewhere. -/
def Broken (es : List Expression) (n : Nat) : Prop :=
  (∃ e ∈ es, e.Breaks n) ∨ n = 5 ∧ RolesClash es

theorem not_broken_zero : ¬ Broken es 0 := by
  rintro (⟨-, -, ⟨⟩⟩ | ⟨⟨⟩, -⟩)

/-- What is reported of a program: the lowest rule that is broken anywhere, and for the rules on one
equation the first that breaks it, with its line. -/
structure Reported (es : List Expression) (v : Violation) : Prop where
  broken : Broken es v.rule.number
  lowest : ∀ m < v.rule.number, ¬ Broken es m
  first : v.rule.number ≤ 4 → ∃ (i : Nat) (e : Expression), v.index = i ∧ v.line = e.line ∧
    es[i]? = some e ∧ e.Breaks v.rule.number ∧
    ∀ j < i, ∀ d, es[j]? = some d → ¬ d.Breaks v.rule.number

/-! ## Checks -/

/-- The check of a rule on one equation. -/
def check : Nat → Expression → Option Rule
  | 1 => brokenOperands
  | 2 => brokenCount
  | 3 => brokenLinear
  | 4 => brokenPublic
  | _ => fun _ => none

theorem check_eq_none_iff : check n e = none ↔ ¬ e.Breaks n := by
  match n with
  | 0 => simp [check, Breaks]
  | 1 => simp [check, Breaks, brokenOperands_eq_none_iff]
  | 2 =>
    rw [check, brokenCount_eq_none_iff, Breaks, maxNames, wireCount]
    omega
  | 3 => simp [check, Breaks, brokenLinear_eq_none_iff]
  | 4 => simp [check, Breaks, brokenPublic_eq_none_iff]
  | n + 5 => simp [check, Breaks]

theorem number_of_check {rule : Rule} (h : check n e = some rule) : rule.number = n := by
  match n with
  | 0 => cases h
  | 1 =>
    rw [check, brokenOperands] at h
    cases hq : e.quadratic with
    | none =>
      rw [hq] at h
      cases h
    | some t =>
      rw [hq] at h
      obtain ⟨-, h⟩ := Option.ite_none_right_eq_some.mp h
      cases h
      rfl
  | 2 =>
    simp only [check, brokenCount] at h
    split_ifs at h <;> cases h <;> rfl
  | 3 =>
    obtain ⟨name, -, rfl⟩ := Option.map_eq_some_iff.mp h
    rfl
  | 4 =>
    rw [check, brokenPublic] at h
    cases hp : e.rhs with
    | none =>
      rw [hp] at h
      cases h
    | some p =>
      rw [hp] at h
      obtain ⟨-, h⟩ := Option.ite_none_right_eq_some.mp h
      cases h
      rfl
  | n + 5 => cases h

/-- The first expression for which a check finds something. -/
theorem firstBroken_eq_some {rule : Expression → Option Rule} {index : Nat}
    (h : firstBroken rule index es = some v) :
    ∃ (i : Nat) (e : Expression) (broken : Rule), es[i]? = some e ∧ rule e = some broken ∧
      v = ⟨broken, (index + i : Nat), e.line⟩ ∧ ∀ j < i, ∀ d, es[j]? = some d → rule d = none := by
  induction es generalizing index with
  | nil => cases h
  | cons e es ih =>
    rw [firstBroken] at h
    cases he : rule e with
    | some broken =>
      rw [he] at h
      cases h
      exact ⟨0, e, broken, rfl, he, rfl, by simp⟩
    | none =>
      rw [he] at h
      obtain ⟨i, d, broken, hd, hbroken, rfl, hbefore⟩ := ih h
      refine ⟨i + 1, d, broken, hd, hbroken, ?_, ?_⟩
      · congr 2
        omega
      · intro j hj c hc
        cases j with
        | zero =>
          cases hc
          exact he
        | succ j => exact hbefore j (by omega) c hc

theorem firstBroken_check_eq_none_iff {index : Nat} :
    firstBroken (check n) index es = none ↔ ∀ e ∈ es, ¬ e.Breaks n := by
  rw [firstBroken_eq_none_iff]
  exact forall₂_congr fun e _ => check_eq_none_iff

/-- A rule on one equation that no equation breaks. -/
theorem not_broken_of_check (hn : n ≤ 4) (h : firstBroken (check n) 0 es = none) :
    ¬ Broken es n := by
  rintro (⟨e, he, hbreaks⟩ | ⟨rfl, -⟩)
  · exact firstBroken_check_eq_none_iff.mp h e he hbreaks
  · exact absurd hn (by decide)

/-! ## The reported violation -/

/-- A rule on one equation is reported if none before it is broken. -/
theorem reported_of_check (hn : n ≤ 4) (hv : firstBroken (check n) 0 es = some v)
    (hbefore : ∀ m < n, firstBroken (check m) 0 es = none) : Reported es v := by
  obtain ⟨i, e, broken, he, hbroken, rfl, hfirst⟩ := firstBroken_eq_some hv
  have hbreaks : e.Breaks n := by
    by_contra hkeeps
    rw [check_eq_none_iff.mpr hkeeps] at hbroken
    cases hbroken
  obtain rfl := number_of_check hbroken
  refine ⟨Or.inl ⟨e, List.mem_of_getElem? he, hbreaks⟩, ?_, fun _ => ?_⟩
  · exact fun m hm => not_broken_of_check (hm.le.trans hn) (hbefore m hm)
  · refine ⟨i, e, by simp, rfl, he, hbreaks, fun j hj d hd => ?_⟩
    exact check_eq_none_iff.mp (hfirst j hj d hd)

/-- Roles that do not agree clash in two equations, if no public input is on a wire of its own. -/
theorem rolesClash_of_not_rolesAgree (h : ¬ RolesAgree es) (hown : ∀ e ∈ es, ¬ e.Breaks 4) :
    RolesClash es := by
  simp only [RolesAgree, not_forall, not_not] at h
  obtain ⟨d, hd, p, hp, e, he, hmem⟩ := h
  obtain ⟨i, hi⟩ := List.mem_iff_getElem?.mp hd
  obtain ⟨j, hj⟩ := List.mem_iff_getElem?.mp he
  refine ⟨i, j, d, e, p, ?_, hi, hj, hp, hmem⟩
  -- in one place the equations would be the same, with its public input on a wire
  rintro rfl
  obtain rfl : d = e := Option.some.inj (hi.symm.trans hj)
  exact hown d hd ⟨p, hp, hmem⟩

theorem not_rolesAgree_of_rolesClash (h : RolesClash es) : ¬ RolesAgree es := by
  obtain ⟨i, j, d, e, p, -, hi, hj, hp, hmem⟩ := h
  exact fun hagree => hagree d (List.mem_of_getElem? hi) p hp e (List.mem_of_getElem? hj) hmem

/-- The rule across equations is reported if no other is broken. -/
theorem reported_of_roles (hv : brokenRoles es = some v)
    (hbefore : ∀ m < 5, firstBroken (check m) 0 es = none) : Reported es v := by
  have hclash : RolesClash es := by
    refine rolesClash_of_not_rolesAgree (fun hagree => ?_)
      (firstBroken_check_eq_none_iff.mp (hbefore 4 (by omega)))
    rw [brokenRoles_eq_none_iff.mpr hagree] at hv
    cases hv
  obtain ⟨c, -, rfl⟩ := Option.map_eq_some_iff.mp hv
  have hfive : ¬ Rule.number (.roleConflict c.name c.earlier) ≤ 4 := by
    rw [Rule.number]
    decide
  refine ⟨Or.inr ⟨rfl, hclash⟩, ?_, fun hlocal => absurd hlocal hfive⟩
  exact fun m hm => not_broken_of_check (Nat.le_of_lt_succ hm) (hbefore m hm)

theorem violation?_eq (es : List Expression) : violation? es =
    (firstBroken (check 1) 0 es).or ((firstBroken (check 2) 0 es).or
      ((firstBroken (check 3) 0 es).or ((firstBroken (check 4) 0 es).or (brokenRoles es)))) := by
  simp only [violation?, Option.orElse_eq_orElse, Option.orElse_eq_or]
  rfl

/-- If the rules before one are kept, that one is reported, or it is kept too and the search goes
on. -/
theorem reported_or_next {rest : Option Violation} (hn : n ≤ 4)
    (hbefore : ∀ m < n, firstBroken (check m) 0 es = none)
    (hv : (firstBroken (check n) 0 es).or rest = some v) :
    Reported es v ∨ (∀ m < n + 1, firstBroken (check m) 0 es = none) ∧ rest = some v := by
  rcases Option.or_eq_some_iff.mp hv with hv | ⟨hnone, hrest⟩
  · exact Or.inl (reported_of_check hn hv hbefore)
  · refine Or.inr ⟨fun m hm => ?_, hrest⟩
    rcases Nat.lt_succ_iff_lt_or_eq.mp hm with hm | rfl
    · exact hbefore m hm
    · exact hnone

/-- **The violation that is reported is one of the lowest rule that is broken.** -/
theorem reported_of_violation? (h : violation? es = some v) : Reported es v := by
  rw [violation?_eq] at h
  have hzero : ∀ m < 1, firstBroken (check m) 0 es = none := by
    rintro m hm
    obtain rfl := Nat.lt_one_iff.mp hm
    exact firstBroken_check_eq_none_iff.mpr fun _ _ hbreaks => hbreaks
  rcases reported_or_next (by decide) hzero h with hv | ⟨hone, h⟩
  · exact hv
  rcases reported_or_next (by decide) hone h with hv | ⟨htwo, h⟩
  · exact hv
  rcases reported_or_next (by decide) htwo h with hv | ⟨hthree, h⟩
  · exact hv
  rcases reported_or_next (by decide) hthree h with hv | ⟨hfour, h⟩
  · exact hv
  exact reported_of_roles h hfour

/-- A program without a violation breaks no rule. -/
theorem not_broken_of_violation? (h : violation? es = none) : ¬ Broken es n := by
  simp only [violation?_eq, Option.or_eq_none_iff] at h
  obtain ⟨hone, htwo, hthree, hfour, hroles⟩ := h
  match n with
  | 0 => exact not_broken_zero
  | 1 => exact not_broken_of_check (by decide) hone
  | 2 => exact not_broken_of_check (by decide) htwo
  | 3 => exact not_broken_of_check (by decide) hthree
  | 4 => exact not_broken_of_check (by decide) hfour
  | n + 5 =>
    rintro (⟨-, -, ⟨⟩⟩ | ⟨-, hclash⟩)
    exact not_rolesAgree_of_rolesClash hclash (brokenRoles_eq_none_iff.mp hroles)

/-- **No violation is found exactly if no rule is broken.** -/
theorem violation?_eq_none_iff : violation? es = none ↔ ∀ n, ¬ Broken es n := by
  refine ⟨fun h n => not_broken_of_violation? h, fun h => ?_⟩
  cases hv : violation? es with
  | none => rfl
  | some v => exact absurd (reported_of_violation? hv).broken (h _)

/-- The rule across equations is looked at last. -/
theorem Reported.brokenRoles (h : Reported es v) (hv : violation? es = some v)
    (hfive : ¬ v.rule.number ≤ 4) : Expression.brokenRoles es = some v := by
  have hkept : ∀ m ≤ 4, firstBroken (check m) 0 es = none := fun m hm =>
    firstBroken_check_eq_none_iff.mpr fun e he hbreaks =>
      h.lowest m (by omega) (Or.inl ⟨e, he, hbreaks⟩)
  simpa [violation?_eq, hkept] using hv

/-- **The equation that is reported is the one with which the rule is first broken.** -/
theorem first_of_violation? (h : violation? es = some v) :
    ∃ k : Nat, v.index = k ∧ v.line = (es[k]?).bind (·.line) ∧
      Broken (es.take (k + 1)) v.rule.number ∧ ¬ Broken (es.take k) v.rule.number := by
  have hreported := reported_of_violation? h
  by_cases hlocal : v.rule.number ≤ 4
  · obtain ⟨k, e, hindex, hline, he, hbreaks, hbefore⟩ := hreported.first hlocal
    refine ⟨k, hindex, by rw [hline, he, Option.bind_some], Or.inl ⟨e, ?_, hbreaks⟩, ?_⟩
    · exact List.mem_of_getElem? (i := k) (by rw [List.getElem?_take_of_lt (by omega), he])
    · rintro (⟨d, hd, hbreaks⟩ | ⟨hfive, -⟩)
      · obtain ⟨j, hj⟩ := List.mem_iff_getElem?.mp hd
        rw [List.getElem?_take] at hj
        obtain ⟨hjk, hj⟩ := Option.ite_none_right_eq_some.mp hj
        exact hbefore j hjk d hj hbreaks
      · omega
  · have hroles := hreported.brokenRoles h hlocal
    have hfive : v.rule.number = 5 := by
      obtain ⟨c, -, rfl⟩ := Option.map_eq_some_iff.mp hroles
      rfl
    obtain ⟨k, hindex, hline, hbroken, hkept⟩ := brokenRoles_eq_some hroles
    have hown : ∀ e ∈ es.take (k + 1), ¬ e.Breaks 4 := fun e he hbreaks =>
      hreported.lowest 4 (by omega) (Or.inl ⟨e, List.mem_of_mem_take he, hbreaks⟩)
    refine ⟨k, hindex, hline, Or.inr ⟨hfive, rolesClash_of_not_rolesAgree hbroken hown⟩, ?_⟩
    rw [hfive]
    rintro (⟨-, -, ⟨⟩⟩ | ⟨-, hclash⟩)
    exact not_rolesAgree_of_rolesClash hclash hkept

/-! ## Equations that cannot be normalised -/

/-- Equations are normalised in order: the first one that cannot be is reported. -/
theorem listOfEquations_error {maximum : Value} {index : Nat} {qs : List Equation} {fault : Fault}
    (h : listOfEquations maximum index qs = .error fault) :
    ∃ (i : Nat) (q : Equation), qs[i]? = some q ∧
      ofEquation q (index + i : Nat) maximum = .error fault ∧
      ∀ j < i, ∀ p, qs[j]? = some p → ∃ e, ofEquation p (index + j : Nat) maximum = .ok e := by
  induction qs generalizing index with
  | nil => cases h
  | cons q qs ih =>
    rw [listOfEquations] at h
    cases hq : ofEquation q index maximum with
    | error other =>
      rw [hq] at h
      cases h
      exact ⟨0, q, rfl, hq, by simp⟩
    | ok e =>
      rw [hq, ok_bind] at h
      cases hrest : listOfEquations maximum (index + 1) qs with
      | ok es =>
        rw [hrest] at h
        cases h
      | error other =>
        rw [hrest] at h
        cases h
        obtain ⟨i, p, hp, hfault, hbefore⟩ := ih hrest
        have hshift : ∀ k, index + 1 + k = index + (k + 1) := by omega
        simp only [hshift] at hfault hbefore
        refine ⟨i + 1, p, hp, hfault, fun j hj d hd => ?_⟩
        cases j with
        | zero =>
          cases hd
          exact ⟨e, hq⟩
        | succ j => exact hbefore j (by omega) d hd

end Expression

namespace Circuit

open Expression

/-- Expressions that break no rule make a circuit, and others are reported. -/
theorem ofExpressions_cases (F : PrimeField) (es : List Expression) :
    (ofExpressions F es = .ok ⟨F, es, .derive F es⟩ ∧ ∀ n, ¬ Broken es n) ∨
      ∃ v, ofExpressions F es = .error (.violation v) ∧ Reported es v := by
  rw [ofExpressions, validate]
  cases h : violation? es with
  | none => exact Or.inl ⟨rfl, fun n => not_broken_of_violation? h⟩
  | some v => exact Or.inr ⟨v, rfl, reported_of_violation? h⟩

/-- **The first equation that cannot be normalised is reported. If there is none, a program is
accepted exactly if it breaks no rule, and otherwise the lowest rule that is broken is
reported.** -/
theorem ofEquations_precedence (settings : Settings) (qs : List Equation) :
    (∃ (i : Nat) (q : Equation) (fault : Fault), qs[i]? = some q ∧
      ofEquation q i (.int settings.maxCoefficient) = .error fault ∧
      (∀ j < i, ∀ p, qs[j]? = some p →
        ∃ e, ofEquation p j (.int settings.maxCoefficient) = .ok e) ∧
      ofEquations settings qs = .error fault) ∨
    ∃ es, List.Forall₂ (fun x e => ofEquation x.1 x.2 (.int settings.maxCoefficient) = .ok e)
        qs.zipIdx es ∧
      ((∃ c, ofEquations settings qs = .ok c) ↔ ∀ n, ¬ Broken es n) ∧
      ((∃ n, Broken es n) →
        ∃ v, ofEquations settings qs = .error (.violation v) ∧ Reported es v) := by
  cases h : listOfEquations (.int settings.maxCoefficient) 0 qs with
  | error fault =>
    obtain ⟨i, q, hq, hfault, hbefore⟩ := listOfEquations_error h
    simp only [Nat.zero_add] at hfault hbefore
    refine Or.inl ⟨i, q, fault, hq, hfault, hbefore, ?_⟩
    rw [ofEquations, h, error_bind]
  | ok es =>
    refine Or.inr ⟨es, listOfEquations_ok h, ?_⟩
    rw [ofEquations, h, ok_bind]
    rcases ofExpressions_cases settings.field es with ⟨hok, hkept⟩ | ⟨v, herror, hreported⟩
    · exact ⟨⟨fun _ => hkept, fun _ => ⟨_, hok⟩⟩, fun ⟨n, hbroken⟩ => absurd hbroken (hkept n)⟩
    · refine ⟨⟨?_, fun hkept => absurd hreported.broken (hkept _)⟩, fun _ => ⟨v, herror, hreported⟩⟩
      rintro ⟨c, hok⟩
      rw [herror] at hok
      cases hok

/-- An equation with its public input on a wire, and after it a square. -/
def wireThenSquare : List Equation :=
  [⟨[⟨false, none, ["x"]⟩], some ⟨false, "x"⟩, some 1⟩,
    ⟨[⟨false, none, ["y", "y"]⟩], none, some 2⟩]

/-- Their expressions. -/
def wireThenSquareExpressions : List Expression :=
  [⟨none, [⟨false, .int 1, "x"⟩], some ⟨false, "x"⟩, some 1⟩,
    ⟨some ⟨false, .int 1, "y", "y"⟩, [], none, some 2⟩]

theorem ofEquations_precedence_wireThenSquare :
    ∃ v, ofEquations .default wireThenSquare = .error (.violation v) ∧ v.rule.number = 1 ∧
      v.index = 1 ∧ v.line = some 2 := by
  have hlist : List.Forall₂
      (fun x e => ofEquation x.1 x.2 (.int Settings.default.maxCoefficient) = .ok e)
      wireThenSquare.zipIdx wireThenSquareExpressions := listOfEquations_ok rfl
  rcases ofEquations_precedence .default wireThenSquare with
    ⟨i, q, fault, hq, hfault, -, -⟩ | ⟨es, hes, -, hreports⟩
  · obtain ⟨e, -, he⟩ := exists_of_forall₂ hlist.flip (List.mk_mem_zipIdx_iff_getElem?.mpr hq)
    cases hfault.symm.trans he
  · obtain rfl : es = wireThenSquareExpressions :=
      Relator.RightUnique.forall₂ (fun _ _ _ hd he => Except.ok.inj (hd.symm.trans he)) hes hlist
    have hsquare : Broken wireThenSquareExpressions 1 :=
      Or.inl ⟨_, List.mem_cons_of_mem _ List.mem_cons_self, _, rfl, rfl⟩
    obtain ⟨v, hv, hreported⟩ := hreports ⟨1, hsquare⟩
    have hone : v.rule.number = 1 := by
      have hle : ¬ 1 < v.rule.number := fun hlt => hreported.lowest 1 hlt hsquare
      have hpos : v.rule.number ≠ 0 := fun hzero => not_broken_zero (hzero ▸ hreported.broken)
      omega
    obtain ⟨i, e, hindex, hline, hi, hbreaks, -⟩ := hreported.first (by omega)
    rw [hone] at hbreaks
    refine ⟨v, hv, hone, ?_⟩
    match i with
    | 0 =>
      cases hi
      obtain ⟨t, ht, -⟩ := hbreaks
      cases ht
    | 1 =>
      cases hi
      exact ⟨hindex, hline⟩
    | i + 2 => cases hi

end Circuit

end PlonkGates
