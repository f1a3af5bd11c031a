import PlonkGates.Proofs.FirstFault

/-!
# Which expressions have a layout, and what it keeps

The wires of a gate are not enough for some expressions (`Layout.Overfull`), and these are the only
ones without a layout, whether the rules accept them or not.

The wires of a layout hold the wire variables of the expression and nothing else. Setting a selector
replaces what was there. If neither the operands nor the linear terms repeat a variable, no variable
is on two wires and no wire gets two coefficients, so nothing is replaced: a draft holds all that it
was made of (`Draft.Holds`).
-/

namespace PlonkGates

namespace Layout

/-! ## The domain -/

variable {e : Expression} {layout : Layout} {q : QuadraticTerm} {bindings bindings' : Bindings}
  {t : LinearTerm} {fault : Fault}

theorem divergence_of_bind {wire : Wire} {name : String}
    (h : bind bindings wire name = .error fault) : ∃ cause, fault = .divergence cause := by
  rw [bind] at h
  cases hbound : bindings.lookup wire with
  | none =>
    rw [hbound] at h
    cases h
  | some bound =>
    rw [hbound] at h
    dsimp only at h
    split_ifs at h
    cases h
    exact ⟨_, rfl⟩

theorem divergence_of_placeBeside {ts : List LinearTerm}
    (h : placeBeside q bindings ts = .error fault) : ∃ cause, fault = .divergence cause := by
  induction ts generalizing bindings with
  | nil => cases h
  | cons t ts ih =>
    rw [placeBeside_cons] at h
    cases hone : placeOne q bindings t with
    | error cause =>
      rw [hone] at h
      cases h
      rw [placeOne] at hone
      split_ifs at hone
      exact divergence_of_bind hone
    | ok middle =>
      rw [hone, ok_bind] at h
      cases hrest : placeBeside q middle ts with
      | error cause =>
        rw [hrest] at h
        cases h
        exact ih hrest
      | ok placed =>
        rw [hrest] at h
        cases h

/-- Laying an expression out has faults of one kind only. -/
theorem divergence_of_error (h : ofExpression e = .error fault) :
    ∃ cause, fault = .divergence cause := by
  rw [ofExpression] at h
  cases hq : e.quadratic with
  | some q =>
    rw [hq] at h
    dsimp only at h
    cases hplaced : placeBeside q [(.a, q.left), (.b, q.right)] e.linear with
    | error cause =>
      rw [hplaced] at h
      cases h
      exact divergence_of_placeBeside hplaced
    | ok placed =>
      rw [hplaced] at h
      cases h
  | none =>
    rw [hq] at h
    dsimp only at h
    split_ifs at h
    cases h
    exact ⟨_, rfl⟩

/-- The variable of every linear term is on the wire of its selector. -/
theorem Describes.exists_wire (h : layout.Describes e) (ht : t ∈ e.linear) :
    ∃ wire, layout.bindings.lookup wire = some t.name := by
  obtain ⟨s, -, -, hbound⟩ := exists_of_forall₂ (R := flip (Places layout.bindings)) h.terms.flip ht
  exact ⟨s.wire, hbound⟩

/-- What is beside the operands is on the output wire, because the other two hold the operands. -/
theorem Describes.lookup_output (h : layout.Describes e) (hq : e.quadratic = some q)
    (ht : t ∈ e.linear) (hbeside : IsBeside q t.name) :
    layout.bindings.lookup .o = some t.name := by
  obtain ⟨ha, hb⟩ := h.operands q hq
  obtain ⟨wire, hwire⟩ := h.exists_wire ht
  cases wire with
  | a => exact absurd (Option.some.inj (hwire.symm.trans ha)) hbeside.1
  | b => exact absurd (Option.some.inj (hwire.symm.trans hb)) hbeside.2
  | o => exact hwire

theorem not_overfull_of_ok (h : ofExpression e = .ok layout) : ¬Overfull e := by
  rintro (⟨q, hq, s, hs, t, ht, hsq, htq, hne⟩ | ⟨hq, hlong⟩)
  · have hdescribes := describes_of_ok h
    have houtput := hdescribes.lookup_output hq hs hsq
    rw [hdescribes.lookup_output hq ht htq] at houtput
    exact hne (Option.some.inj houtput).symm
  · rw [ofExpression, hq] at h
    dsimp only at h
    split_ifs at h with hroom
    exact hroom hlong

/-- **The expressions without a layout are those that the wires are not enough for.** -/
theorem divergence_iff_overfull :
    (∃ cause, ofExpression e = .error (.divergence cause)) ↔ Overfull e := by
  constructor
  · rintro ⟨cause, hcause⟩
    by_contra hroom
    obtain ⟨layout, hlayout⟩ := exists_layout_of_not_overfull hroom
    rw [hcause] at hlayout
    cases hlayout
  · intro hfull
    cases hresult : ofExpression e with
    | error fault =>
      obtain ⟨cause, rfl⟩ := divergence_of_error hresult
      exact ⟨cause, rfl⟩
    | ok layout => exact absurd hfull (not_overfull_of_ok hresult)

/-! ## Names on wires -/

open VariableTable (mem_of_lookup)

/-- **The wires hold the wire variables of the expression.** -/
theorem Describes.mem_names_iff (h : layout.Describes e) (name : String) :
    name ∈ layout.bindings.map (·.2) ↔ name ∈ e.wireNames := by
  constructor
  · intro hmem
    obtain ⟨x, hx, rfl⟩ := List.mem_map.mp hmem
    exact h.bound x hx
  · intro hmem
    have hbound : ∀ {wire}, layout.bindings.lookup wire = some name →
        name ∈ layout.bindings.map (·.2) := fun hwire =>
      List.mem_map_of_mem (f := Prod.snd) (mem_of_lookup hwire)
    rw [Expression.wireNames, List.mem_append] at hmem
    rcases hmem with hoperand | hlinear
    · cases hq : e.quadratic with
      | none => simp [hq] at hoperand
      | some q =>
        obtain ⟨ha, hb⟩ := h.operands q hq
        simp only [hq, List.mem_cons, List.not_mem_nil, or_false] at hoperand
        rcases hoperand with rfl | rfl
        · exact hbound ha
        · exact hbound hb
    · obtain ⟨t, ht, rfl⟩ := List.mem_map.mp hlinear
      obtain ⟨wire, hwire⟩ := h.exists_wire ht
      exact hbound hwire

/-- The variable on the output wire, if there is one, is no operand. -/
def OutputBeside (q : QuadraticTerm) (bindings : Bindings) : Prop :=
  ∀ name, bindings.lookup .o = some name → IsBeside q name

theorem OutputBeside.placeOne (h : OutputBeside q bindings)
    (hplaced : placeOne q bindings t = .ok bindings') : OutputBeside q bindings' := by
  rw [Layout.placeOne] at hplaced
  split_ifs at hplaced with hwire
  · rw [hwire] at hplaced
    obtain ⟨hbound, -⟩ := bind_ok hplaced (List.mem_singleton_self t.name)
    intro name hname
    rw [hbound] at hname
    cases hname
    exact wireBeside_eq_o_iff.mp hwire
  · cases hplaced
    exact h

theorem OutputBeside.placeBeside {ts : List LinearTerm} {selectors : List SelectorTerm}
    (h : OutputBeside q bindings)
    (hplaced : placeBeside q bindings ts = .ok (bindings', selectors)) :
    OutputBeside q bindings' := by
  induction ts generalizing bindings selectors with
  | nil =>
    cases hplaced
    exact h
  | cons t ts ih =>
    rw [placeBeside_cons] at hplaced
    obtain ⟨middle, hmiddle, hplaced⟩ := bind_eq_ok.mp hplaced
    obtain ⟨placed, hrest, hplaced⟩ := bind_eq_ok.mp hplaced
    cases hplaced
    exact ih (h.placeOne hmiddle) hrest

theorem lookup_of_mem (hnodup : (bindings.map (·.1)).Nodup) {x : Wire × String}
    (hx : x ∈ bindings) : bindings.lookup x.1 = some x.2 := by
  obtain ⟨before, after, rfl⟩ := List.append_of_mem hx
  rw [List.map_append, List.map_cons] at hnodup
  refine List.lookup_eq_some_iff.mpr ⟨before, after, rfl, fun y hy => ?_⟩
  have hne := (List.nodup_append.mp hnodup).2.2 y.1 (List.mem_map_of_mem hy) x.1 List.mem_cons_self
  simpa using hne.symm

/-- Beside a quadratic term, a variable is on the wire that its linear terms go to. -/
theorem wire_eq_wireBeside (h : ofExpression e = .ok layout) (hq : e.quadratic = some q)
    (hoperands : q.left ≠ q.right) {wire : Wire} {name : String}
    (hwire : layout.bindings.lookup wire = some name) : wire = wireBeside q name := by
  obtain ⟨ha, hb⟩ := (describes_of_ok h).operands q hq
  cases wire with
  | a =>
    obtain rfl : q.left = name := Option.some.inj (ha.symm.trans hwire)
    exact (if_pos rfl).symm
  | b =>
    obtain rfl : q.right = name := Option.some.inj (hb.symm.trans hwire)
    rw [wireBeside, if_neg hoperands.symm, if_pos rfl]
  | o =>
    rw [ofExpression, hq] at h
    obtain ⟨⟨bindings, selectors⟩, hplaced, h⟩ := bind_eq_ok.mp h
    cases h
    have hfree : OutputBeside q [(.a, q.left), (.b, q.right)] := fun name hname => by cases hname
    exact (wireBeside_eq_o_iff.mpr (hfree.placeBeside hplaced name hwire)).symm

/-- **If no variable is repeated, no variable is on two wires.** -/
theorem names_nodup (h : ofExpression e = .ok layout)
    (hoperands : ∀ q, e.quadratic = some q → q.left ≠ q.right)
    (hlinear : (e.linear.map (·.name)).Nodup) : (layout.bindings.map (·.2)).Nodup := by
  have hwires := (describes_of_ok h).nodup
  cases hq : e.quadratic with
  | some q =>
    refine List.Nodup.map_on (fun x hx y hy hxy => ?_) (hwires.of_map _)
    have hbound : ∀ z ∈ layout.bindings, z.1 = wireBeside q z.2 := fun z hz =>
      wire_eq_wireBeside h hq (hoperands q hq) (lookup_of_mem hwires hz)
    exact Prod.ext ((hbound x hx).trans (hxy ▸ (hbound y hy).symm)) hxy
  | none =>
    rw [ofExpression, hq] at h
    dsimp only at h
    split_ifs at h with hlong
    cases h
    have hplaced : (Wire.all.zip e.linear).map (·.2) = e.linear :=
      List.map_snd_zip (Nat.not_lt.mp hlong)
    rw [← hplaced, List.map_map] at hlinear
    rw [List.map_map]
    exact hlinear

end Layout

/-! ## Drafts -/

theorem Wire.selector_injective {wire wire' : Wire} (h : wire.selector = wire'.selector) :
    wire = wire' := by
  cases wire <;> cases wire' <;> simp_all [selector]

/-- One of the six numbers. -/
def Selectors.get (s : Selectors) : Selector → Element
  | .mult => s.qm
  | .left => s.ql
  | .right => s.qr
  | .output => s.qo
  | .constant => s.qc
  | .publicInput => s.pi

theorem Selectors.get_set (s : Selectors) (selector other : Selector) (x : Element) :
    (s.set selector x).get other = if other = selector then x else s.get other := by
  cases selector <;> cases other <;> rfl

namespace Draft

variable {F : PrimeField} {d d' : Draft} {layout : Layout} {table : VariableTable}
  {witnesses : List (String × Int)}

/-- All that a draft is made of is found in it. -/
structure Holds (d : Draft) (layout : Layout) (table : VariableTable) : Prop where
  publicInput : table.publicSlot d.field layout.rhs = .ok d.selectors.pi
  multiplier : ∀ coefficient negative, layout.multiplier = some (coefficient, negative) →
    d.field.signedElement coefficient negative = .ok d.selectors.qm
  terms : ∀ t ∈ layout.selectors, d.field.signedElement t.coefficient t.negative =
    .ok (d.selectors.get t.wire.selector)

theorem set_ok {selector : Selector} {x : Element} (h : d.set selector (.element x) = .ok d') :
    d' = { d with selectors := d.selectors.set selector x } := by
  obtain ⟨y, hy, rfl⟩ := map_eq_ok.mp h
  rw [PrimeField.element] at hy
  split_ifs at hy
  cases hy
  rfl

/-- Linear terms set their own selectors and no others. -/
theorem get_withSelectors {ts : List SelectorTerm} (h : d.withSelectors ts = .ok d') :
    d'.field = d.field ∧
      (∀ selector, (∀ t ∈ ts, t.wire.selector ≠ selector) →
        d'.selectors.get selector = d.selectors.get selector) ∧
      ((ts.map (·.wire)).Nodup → ∀ t ∈ ts,
        d.field.signedElement t.coefficient t.negative =
          .ok (d'.selectors.get t.wire.selector)) := by
  induction ts generalizing d with
  | nil =>
    cases h
    exact ⟨rfl, fun _ _ => rfl, fun _ _ ht => absurd ht List.not_mem_nil⟩
  | cons t ts ih =>
    obtain ⟨x, hx, h⟩ := bind_eq_ok.mp h
    obtain ⟨middle, hmiddle, h⟩ := bind_eq_ok.mp h
    obtain rfl := set_ok hmiddle
    obtain ⟨hfield, hothers, hterms⟩ := ih h
    refine ⟨hfield, fun selector hselector => ?_, fun hnodup => ?_⟩
    · obtain ⟨hfirst, hrest⟩ := List.forall_mem_cons.mp hselector
      rw [hothers selector hrest, Selectors.get_set, if_neg hfirst.symm]
    · obtain ⟨hout, hnodup⟩ := List.nodup_cons.mp hnodup
      refine List.forall_mem_cons.mpr ⟨?_, hterms hnodup⟩
      -- no later term is on the wire, so the selector keeps what was set first
      have hkept := hothers t.wire.selector fun u hu hsame =>
        hout (List.mem_map.mpr ⟨u, hu, Wire.selector_injective hsame⟩)
      rw [hkept, Selectors.get_set, if_pos rfl]
      exact hx

/-- The first step of a frame sets the multiplier. -/
theorem withMultiplier_ok {multiplier : Option (Value × Bool)}
    (h : d.withMultiplier multiplier = .ok d') :
    d'.field = d.field ∧ ∀ coefficient negative, multiplier = some (coefficient, negative) →
      d.field.signedElement coefficient negative = .ok d'.selectors.qm := by
  cases multiplier with
  | none =>
    cases h
    exact ⟨rfl, fun _ _ hnone => by cases hnone⟩
  | some m =>
    obtain ⟨x, hx, h⟩ := bind_eq_ok.mp h
    obtain rfl := set_ok h
    refine ⟨rfl, fun coefficient negative hm => ?_⟩
    cases hm
    exact hx

/-- **With one term a wire, a draft holds all that it was made of.** -/
theorem holds_ofLayout (hnodup : (layout.selectors.map (·.wire)).Nodup)
    (h : ofLayout layout table witnesses F = .ok d) : d.field = F ∧ d.Holds layout table := by
  rw [ofLayout_eq] at h
  obtain ⟨x, hx, h⟩ := bind_eq_ok.mp h
  obtain ⟨framed, hframe, rfl⟩ := map_eq_ok.mp h
  obtain ⟨d₁, hd₁, hframe⟩ := bind_eq_ok.mp hframe
  obtain ⟨d₂, hd₂, hframe⟩ := bind_eq_ok.mp hframe
  obtain ⟨hfield₁ : d₁.field = F, hmultiplier⟩ := withMultiplier_ok hd₁
  obtain ⟨hfield₂, hothers, hterms⟩ := get_withSelectors hd₂
  rw [hfield₁] at hfield₂ hterms
  -- attaching wires changes no number
  have hkept : framed.field = d₂.field ∧ framed.selectors = d₂.selectors :=
    withBindings_keeps (P := fun d => d.field = d₂.field ∧ d.selectors = d₂.selectors) ⟨rfl, rfl⟩
      (fun d wire _ _ hd _ => by cases wire <;> exact hd) hframe
  have hfield : framed.field = F := hkept.1.trans hfield₂
  have hpi : ∀ t : SelectorTerm, (framed.withPi x).selectors.get t.wire.selector =
      d₂.selectors.get t.wire.selector := by
    intro t
    rw [← hkept.2]
    cases t.wire <;> rfl
  have hqm : (framed.withPi x).selectors.qm = d₁.selectors.qm := by
    have hmult := hothers .mult fun t _ => by cases t.wire <;> decide
    exact (congrArg Selectors.qm hkept.2).trans hmult
  refine ⟨hfield, ?_, fun coefficient negative hm => ?_, fun t ht => ?_⟩
  · exact (congrArg (table.publicSlot · layout.rhs) hfield).trans hx
  · rw [field_withPi, hfield, hqm]
    exact hmultiplier coefficient negative hm
  · rw [field_withPi, hfield, hpi]
    exact hterms hnodup t ht

end Draft

/-! ## The whole of it -/

namespace Layout

/-- **What laying an expression out on a gate does, for every expression.** It fails exactly if the
wires are not enough, and always with the same kind of fault. A layout gives one coefficient for
each linear term, in their order, to a wire that holds the variable of the term, and the wires hold
the wire variables of the expression. If neither the operands nor the linear terms repeat a
variable, wires hold different variables and get one coefficient at most, and no draft of the layout
has lost one. -/
theorem ofExpression_exact (e : Expression) :
    ((∃ cause, ofExpression e = .error (.divergence cause)) ↔ Overfull e) ∧
    ((∃ layout, ofExpression e = .ok layout) ↔ ¬Overfull e) ∧
    ∀ layout, ofExpression e = .ok layout →
      List.Forall₂ (Places layout.bindings) e.linear layout.selectors ∧
      (layout.bindings.map (·.1)).Nodup ∧
      (∀ name, name ∈ layout.bindings.map (·.2) ↔ name ∈ e.wireNames) ∧
      ((∀ q, e.quadratic = some q → q.left ≠ q.right) → (e.linear.map (·.name)).Nodup →
        (layout.bindings.map (·.2)).Nodup ∧ (layout.selectors.map (·.wire)).Nodup ∧
        ∀ table witnesses F d, Draft.ofLayout layout table witnesses F = .ok d →
          d.field = F ∧ d.Holds layout table) := by
  refine ⟨divergence_iff_overfull, ⟨?_, exists_layout_of_not_overfull⟩, fun layout h => ?_⟩
  · rintro ⟨layout, h⟩
    exact not_overfull_of_ok h
  · have hdescribes := describes_of_ok h
    refine ⟨hdescribes.terms, hdescribes.nodup, hdescribes.mem_names_iff,
      fun hoperands hlinear => ?_⟩
    have hwires := hdescribes.wires_nodup hlinear
    exact ⟨names_nodup h hoperands hlinear, hwires, fun table witnesses F d hd =>
      Draft.holds_ofLayout hwires hd⟩

/-- The expression `a*b + 3a - 2c = p`, for examples. -/
def foldedExpression : Expression :=
  ⟨some ⟨false, .int 1, "a", "b"⟩, [⟨false, .int 3, "a"⟩, ⟨true, .int 2, "c"⟩], some ⟨false, "p"⟩,
    none⟩

/-- It has a layout with a term folded into wire A. With `d` in place of `a` there is none. -/
theorem ofExpression_exact_folded :
    (∃ layout, ofExpression foldedExpression = .ok layout ∧
      layout.bindings.map (·.2) = ["a", "b", "c"] ∧ layout.selectors.map (·.wire) = [.a, .o] ∧
      (layout.bindings.map (·.2)).Nodup ∧ (layout.selectors.map (·.wire)).Nodup) ∧
    ∃ cause, ofExpression { foldedExpression with
      linear := [⟨false, .int 3, "d"⟩, ⟨true, .int 2, "c"⟩] } = .error (.divergence cause) := by
  constructor
  · obtain ⟨-, -, hall⟩ := ofExpression_exact foldedExpression
    obtain ⟨-, -, -, hdistinct⟩ := hall _ rfl
    obtain ⟨hnames, hwires, -⟩ := hdistinct (fun q hq => by cases hq; decide) (by decide)
    exact ⟨_, rfl, rfl, rfl, hnames, hwires⟩
  · refine (ofExpression_exact _).1.mpr (Or.inl ⟨⟨false, .int 1, "a", "b"⟩, rfl, ?_⟩)
    exact ⟨_, List.mem_cons_self, _, List.mem_cons_of_mem _ List.mem_cons_self,
      ⟨by decide, by decide⟩, ⟨by decide, by decide⟩, by decide⟩

end Layout

end PlonkGates
