import PlonkGates.Gate.Layout
import PlonkGates.Proofs.Outcome
import PlonkGates.Proofs.Rules

/-!
# What a layout says about its expression

A layout that is returned describes its expression (`describes_of_ok`): every linear term, in its
order, gives one coefficient to a wire that holds its variable, and the operands of the quadratic
term are on the wires A and B. This needs none of the rules.

An expression has a layout unless the wires are not enough for it, and for what fits they are
(`exists_layout`). For no wire to get two coefficients (`Describes.wires_nodup`) the rules are
needed: if linear variables are different, so are their wires.
-/

namespace PlonkGates

namespace Layout

/-! ## Bindings -/

/-- Bindings that were added to, with variables among `names`. -/
structure Extends (names : List String) (bindings bindings' : Bindings) : Prop where
  keeps : ∀ wire name, bindings.lookup wire = some name → bindings'.lookup wire = some name
  nodup : (bindings.map (·.1)).Nodup → (bindings'.map (·.1)).Nodup
  new : ∀ x ∈ bindings', x ∈ bindings ∨ x.2 ∈ names

namespace Extends

variable {names : List String} {bindings bindings' bindings'' : Bindings}

theorem refl (names : List String) (bindings : Bindings) : Extends names bindings bindings :=
  ⟨fun _ _ h => h, fun h => h, fun _ h => Or.inl h⟩

theorem trans (h : Extends names bindings bindings') (h' : Extends names bindings' bindings'') :
    Extends names bindings bindings'' where
  keeps := fun wire name hw => h'.keeps wire name (h.keeps wire name hw)
  nodup := fun hn => h'.nodup (h.nodup hn)
  new := fun x hx => by
    rcases h'.new x hx with hx | hx
    · exact h.new x hx
    · exact Or.inr hx

end Extends

/-- A wire that is bound holds the variable, and everything that was bound stays. -/
theorem bind_ok {bindings bindings' : Bindings} {wire : Wire} {name : String} {names : List String}
    (h : bind bindings wire name = .ok bindings') (hname : name ∈ names) :
    bindings'.lookup wire = some name ∧ Extends names bindings bindings' := by
  unfold bind at h
  split at h
  · next hfree =>
    cases h
    have hout : wire ∉ bindings.map (·.1) := by
      intro hmem
      obtain ⟨x, hx, hxw⟩ := List.mem_map.mp hmem
      have hne := List.lookup_eq_none_iff.mp hfree x hx
      simp [hxw] at hne
    refine ⟨by rw [List.lookup_append, hfree]; simp, ?_, ?_, ?_⟩
    · intro w n hw
      rw [List.lookup_append, hw]
      rfl
    · intro hn
      rw [List.map_append]
      exact List.nodup_append.mpr ⟨hn, by simp, by
        intro x hx y hy hxy
        simp only [List.map_cons, List.map_nil, List.mem_singleton] at hy
        exact hout (by rw [← hy, ← hxy]; exact hx)⟩
    · intro x hx
      rcases List.mem_append.mp hx with hx | hx
      · exact Or.inl hx
      · rw [List.mem_singleton.mp hx]
        exact Or.inr hname
  · next bound hbound =>
    split at h
    · next heq =>
      cases h
      exact ⟨by rw [hbound, heq], Extends.refl names bindings⟩
    · cases h

/-! ## Linear terms beside a quadratic term -/

/-- The selector is that of the term, on a wire that holds the variable of the term. -/
def Places (bindings : Bindings) (t : LinearTerm) (s : SelectorTerm) : Prop :=
  s = selectorOf s.wire t ∧ bindings.lookup s.wire = some t.name

/-- Puts the variable of one linear term on its wire, unless it is an operand. -/
def placeOne (q : QuadraticTerm) (bindings : Bindings) (t : LinearTerm) : Except Fault Bindings :=
  if wireBeside q t.name = .o then bind bindings (wireBeside q t.name) t.name else .ok bindings

theorem placeBeside_cons (q : QuadraticTerm) (bindings : Bindings) (t : LinearTerm)
    (ts : List LinearTerm) :
    placeBeside q bindings (t :: ts) = placeOne q bindings t >>= fun bindings =>
      placeBeside q bindings ts >>= fun placed =>
        .ok (placed.1, selectorOf (wireBeside q t.name) t :: placed.2) := by
  rw [placeBeside, placeOne]
  split <;> rfl

theorem placeOne_ok {q : QuadraticTerm} {bindings bindings' : Bindings} {t : LinearTerm}
    {names : List String} (h : placeOne q bindings t = .ok bindings') (hname : t.name ∈ names)
    (ha : bindings.lookup .a = some q.left) (hb : bindings.lookup .b = some q.right) :
    bindings'.lookup (wireBeside q t.name) = some t.name ∧ Extends names bindings bindings' := by
  unfold placeOne at h
  split at h
  · exact bind_ok h hname
  · next hwire =>
    cases h
    refine ⟨?_, Extends.refl names bindings⟩
    unfold wireBeside at hwire ⊢
    split
    · next hleft => rw [ha, hleft]
    · split
      · next hright => rw [hb, hright]
      · simp_all

theorem placeBeside_ok {q : QuadraticTerm} {ts : List LinearTerm} {names : List String} :
    ∀ {bindings bindings' : Bindings} {selectors : List SelectorTerm},
      placeBeside q bindings ts = .ok (bindings', selectors) → (∀ t ∈ ts, t.name ∈ names) →
      bindings.lookup .a = some q.left → bindings.lookup .b = some q.right →
      Extends names bindings bindings' ∧ List.Forall₂ (Places bindings') ts selectors := by
  induction ts with
  | nil =>
    intro bindings bindings' selectors h _ _ _
    cases h
    exact ⟨Extends.refl names bindings, List.Forall₂.nil⟩
  | cons t ts ih =>
    intro bindings bindings' selectors h hnames ha hb
    rw [placeBeside_cons] at h
    obtain ⟨middle, hmiddle, h⟩ := bind_eq_ok.mp h
    obtain ⟨placed, hplaced, h⟩ := bind_eq_ok.mp h
    cases h
    obtain ⟨hbound, hstep⟩ := placeOne_ok hmiddle (hnames t (by simp)) ha hb
    obtain ⟨hext, hplaces⟩ := ih hplaced (fun u hu => hnames u (by simp [hu]))
      (hstep.keeps _ _ ha) (hstep.keeps _ _ hb)
    exact ⟨hstep.trans hext, List.Forall₂.cons ⟨rfl, hext.keeps _ _ hbound⟩ hplaces⟩

/-- The variable of a linear term is neither operand of the quadratic term. -/
def IsBeside (q : QuadraticTerm) (name : String) : Prop := name ≠ q.left ∧ name ≠ q.right

theorem wireBeside_eq_o_iff {q : QuadraticTerm} {name : String} :
    wireBeside q name = .o ↔ IsBeside q name := by
  unfold wireBeside IsBeside
  split
  · next h => simp [h]
  · next h =>
    split
    · next h' => simp [h']
    · next h' => simp [h, h']

/-- The output wire is free or holds the variable, so that it can be put there. -/
theorem exists_placeOne {q : QuadraticTerm} {t : LinearTerm} {name : String} {bindings : Bindings}
    (hone : IsBeside q t.name → t.name = name)
    (hfree : ∀ bound, bindings.lookup .o = some bound → bound = name) :
    ∃ bindings', placeOne q bindings t = .ok bindings' ∧
      ∀ bound, bindings'.lookup .o = some bound → bound = name := by
  unfold placeOne
  split
  · next hwire =>
    have hname := hone (wireBeside_eq_o_iff.mp hwire)
    rw [hwire]
    obtain ⟨bindings', h⟩ : ∃ bindings', bind bindings .o t.name = .ok bindings' := by
      unfold bind
      cases hbound : bindings.lookup .o with
      | none => exact ⟨_, rfl⟩
      | some bound => exact ⟨bindings, by simp [hfree bound hbound, hname]⟩
    obtain ⟨hlookup, -⟩ := bind_ok h (List.mem_singleton_self t.name)
    refine ⟨bindings', h, fun bound hbound => ?_⟩
    rw [hlookup] at hbound
    rw [← Option.some.inj hbound, hname]
  · exact ⟨bindings, rfl, hfree⟩

/-- Linear terms find their place if all those beside the operands have one variable. -/
theorem exists_placeBeside {q : QuadraticTerm} {ts : List LinearTerm} {name : String}
    (hone : ∀ t ∈ ts, IsBeside q t.name → t.name = name) :
    ∀ {bindings : Bindings}, (∀ bound, bindings.lookup .o = some bound → bound = name) →
      ∃ placed, placeBeside q bindings ts = .ok placed := by
  induction ts with
  | nil => exact fun _ => ⟨_, rfl⟩
  | cons t ts ih =>
    intro bindings hfree
    obtain ⟨middle, hmiddle, hfree⟩ := exists_placeOne (hone t (by simp)) hfree
    obtain ⟨placed, hplaced⟩ := ih (fun u hu => hone u (by simp [hu])) hfree
    exact ⟨_, by rw [placeBeside_cons, hmiddle, ok_bind, hplaced, ok_bind]⟩

/-! ## Layouts -/

/-- What a layout says about its expression. -/
structure Describes (layout : Layout) (e : Expression) : Prop where
  multiplier : layout.multiplier = e.quadratic.map fun t => (t.coefficient, t.negative)
  rhs : layout.rhs = e.rhs
  operands : ∀ t, e.quadratic = some t →
    layout.bindings.lookup .a = some t.left ∧ layout.bindings.lookup .b = some t.right
  /-- One selector for each linear term, in the same order. -/
  terms : List.Forall₂ (Places layout.bindings) e.linear layout.selectors
  bound : ∀ x ∈ layout.bindings, x.2 ∈ e.wireNames
  nodup : (layout.bindings.map (·.1)).Nodup

theorem map_fst_zip_sublist {α β : Type} (xs : List α) (ys : List β) :
    ((xs.zip ys).map (·.1)).Sublist xs := by
  induction xs generalizing ys with
  | nil => exact List.Sublist.refl []
  | cons x xs ih =>
    cases ys with
    | nil => exact List.nil_sublist _
    | cons y ys => exact (ih ys).cons_cons x

/-- **Every layout that is returned describes its expression.** -/
theorem describes_of_ok {e : Expression} {layout : Layout}
    (h : ofExpression e = .ok layout) : layout.Describes e := by
  unfold ofExpression at h
  split at h
  · next q hq =>
    obtain ⟨⟨bindings, selectors⟩, hplaced, h⟩ := bind_eq_ok.mp h
    cases h
    obtain ⟨hext, hterms⟩ := @placeBeside_ok q e.linear e.wireNames _ _ _ hplaced
      (fun t ht => List.mem_append_right _ (List.mem_map_of_mem ht)) rfl rfl
    refine ⟨by rw [hq]; rfl, rfl, ?_, hterms, ?_, hext.nodup (by simp)⟩
    · intro t ht
      rw [hq] at ht
      cases ht
      exact ⟨hext.keeps _ _ rfl, hext.keeps _ _ rfl⟩
    · intro x hx
      rcases hext.new x hx with hx | hx
      · simp only [List.mem_cons, List.not_mem_nil, or_false] at hx
        rcases hx with rfl | rfl <;> simp [Expression.wireNames, hq]
      · exact hx
  · next hq =>
    split at h
    · cases h
    · next hlength =>
      cases h
      refine ⟨by rw [hq]; rfl, rfl, by simp [hq], ?_, ?_, ?_⟩
      · -- at most three linear terms, so there are four lists to look at
        match e.linear, hlength with
        | [], _ => exact .nil
        | [_], _ => exact .cons ⟨rfl, rfl⟩ .nil
        | [_, _], _ => exact .cons ⟨rfl, rfl⟩ (.cons ⟨rfl, rfl⟩ .nil)
        | [_, _, _], _ =>
          exact .cons ⟨rfl, rfl⟩ (.cons ⟨rfl, rfl⟩ (.cons ⟨rfl, rfl⟩ .nil))
        | _ :: _ :: _ :: _ :: _, hlong => exact absurd hlong (by simp [Wire.all])
      · intro x hx
        obtain ⟨⟨wire, t⟩, hmem, rfl⟩ := List.mem_map.mp hx
        exact List.mem_append_right _ (List.mem_map_of_mem (List.of_mem_zip hmem).2)
      · rw [List.map_map]
        exact (show Wire.all.Nodup by decide).sublist (map_fst_zip_sublist Wire.all e.linear)

/-- The variables of the terms are those on the wires of their selectors. -/
theorem names_eq_of_places {bindings : Bindings} {ts : List LinearTerm}
    {selectors : List SelectorTerm} (h : List.Forall₂ (Places bindings) ts selectors) :
    (selectors.map (·.wire)).map (fun wire => bindings.lookup wire) =
      (ts.map (·.name)).map some := by
  induction h with
  | nil => rfl
  | cons hplaces _ ih => simp only [List.map_cons, hplaces.2, ih]

/-- **Linear terms with different variables are on different wires.** -/
theorem Describes.wires_nodup {layout : Layout} {e : Expression} (h : layout.Describes e)
    (hlinear : (e.linear.map (·.name)).Nodup) : (layout.selectors.map (·.wire)).Nodup := by
  have hnames : ((e.linear.map (·.name)).map some).Nodup :=
    hlinear.map (Option.some_injective String)
  rw [← names_eq_of_places h.terms] at hnames
  exact hnames.of_map _

/-! ## When there is a layout -/

/-- Of four variables on three wires two are the same. -/
theorem eq_of_isBeside {e : Expression} {q : QuadraticTerm} (hq : e.quadratic = some q)
    (hfits : e.Fits) {s t : LinearTerm} (hs : s ∈ e.linear) (ht : t ∈ e.linear)
    (hsq : IsBeside q s.name) (htq : IsBeside q t.name) : t.name = s.name := by
  by_contra hne
  have hlinear : ∀ u ∈ e.linear, u.name ∈ e.wireNames := fun u hu =>
    List.mem_append_right _ (List.mem_map_of_mem hu)
  have hsub : ({q.left, q.right, s.name, t.name} : Finset String) ⊆ e.wireNames.toFinset := by
    intro x hx
    simp only [Finset.mem_insert, Finset.mem_singleton] at hx
    rw [List.mem_toFinset]
    rcases hx with rfl | rfl | rfl | rfl
    · simp [Expression.wireNames, hq]
    · simp [Expression.wireNames, hq]
    · exact hlinear s hs
    · exact hlinear t ht
  have hcard : ({q.left, q.right, s.name, t.name} : Finset String).card = 4 := by
    have hoperands := hfits.operands q hq
    obtain ⟨hsl, hsr⟩ := hsq
    obtain ⟨htl, htr⟩ := htq
    simp [hoperands, hsl.symm, hsr.symm, htl.symm, htr.symm, Ne.symm hne]
  have hwires := hfits.wires
  have hle := Finset.card_le_card hsub
  rw [hcard] at hle
  simp only [wireCount] at hwires
  omega

/-- The wires of a gate are not enough: two variables are beside the operands of the quadratic term,
or there are more linear terms than wires without one. -/
def Overfull (e : Expression) : Prop :=
  (∃ q, e.quadratic = some q ∧ ∃ s ∈ e.linear, ∃ t ∈ e.linear,
    IsBeside q s.name ∧ IsBeside q t.name ∧ s.name ≠ t.name) ∨
  (e.quadratic = none ∧ 3 < e.linear.length)

/-- **An expression that the wires are enough for has a layout.** -/
theorem exists_layout_of_not_overfull {e : Expression} (h : ¬Overfull e) :
    ∃ layout, ofExpression e = .ok layout := by
  cases hq : e.quadratic with
  | some q =>
    -- the variable beside the operands, if there is one, goes to the output wire
    obtain ⟨name, hname⟩ : ∃ name, ∀ t ∈ e.linear, IsBeside q t.name → t.name = name := by
      by_cases hsome : ∃ s ∈ e.linear, IsBeside q s.name
      · obtain ⟨s, hs, hsq⟩ := hsome
        exact ⟨s.name, fun t ht htq => by_contra fun hne =>
          h (Or.inl ⟨q, hq, t, ht, s, hs, htq, hsq, hne⟩)⟩
      · exact ⟨"", fun t ht htq => absurd ⟨t, ht, htq⟩ hsome⟩
    have hfree : ∀ bound, List.lookup Wire.o [(.a, q.left), (.b, q.right)] = some bound →
        bound = name := fun bound hbound => by cases hbound
    obtain ⟨⟨bindings, selectors⟩, hplaced⟩ := exists_placeBeside hname hfree
    refine ⟨⟨some (q.coefficient, q.negative), bindings, selectors, e.rhs⟩, ?_⟩
    simp only [ofExpression, hq, hplaced, ok_bind]
  | none =>
    have hlength : ¬3 < e.linear.length := fun hlong => h (Or.inr ⟨hq, hlong⟩)
    rw [ofExpression, hq]
    exact ⟨_, if_neg hlength⟩

/-- **An expression that fits has a layout.** -/
theorem exists_layout {e : Expression} (hfits : e.Fits) :
    ∃ layout, ofExpression e = .ok layout := by
  refine exists_layout_of_not_overfull ?_
  rintro (⟨q, hq, s, hs, t, ht, hsq, htq, hne⟩ | ⟨hq, hlong⟩)
  · exact hne (eq_of_isBeside hq hfits ht hs htq hsq)
  · have hcard := List.toFinset_card_of_nodup hfits.linear
    have hnames : e.wireNames = e.linear.map (·.name) := by simp [Expression.wireNames, hq]
    have hwires := hfits.wires
    rw [hnames, hcard, List.length_map] at hwires
    exact absurd hwires (Nat.not_le.mpr hlong)

end Layout

end PlonkGates
