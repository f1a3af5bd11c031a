import Mathlib.Tactic.Ring
import PlonkGates.Gate.Assembly
import PlonkGates.Proofs.Layout
import PlonkGates.Proofs.Meaning
import PlonkGates.Proofs.Residue

/-!
# Drafts of expressions

A draft is assembled from a layout in four steps. Only the first of them, which folds the public
input in, looks at values. So a draft is a frame that depends on the layout and on the numbers of
the witnesses alone, with the public slot filled in (`ofLayout_eq`).

With integer coefficients the frame is given by integers, the weights of the layout
(`frame_eq_ok`), and these add up to the left side of the expression (`eval_weights`). Selectors are
replaced and not added up, so this needs linear terms on different wires.
-/

namespace PlonkGates

/-! ## The public slot -/

/-- What is in the public slot: the value of the public input, negated unless the right side is. -/
def VariableTable.publicSlot (t : VariableTable) (F : PrimeField) :
    Option PublicTerm → Except Fault Element
  | none => .ok (.number F.zero)
  | some p => match t.find? p.name with
    | none => .error (.divergence (.publicMissing p.name))
    | some v =>
      if v.role = .publicInput then F.signedElement (.element v.value) (!p.negative)
      else .error (.divergence (.notPublic p.name))

theorem Element.field_neg {x y : Element} (h : x.neg = .ok y) : y.field = x.field := by
  cases x with
  | number r =>
    cases h
    rfl
  | text F content => cases h

theorem PrimeField.field_signedElement {F : PrimeField} {v : Value} {negative : Bool} {x : Element}
    (h : F.signedElement v negative = .ok x) : x.field = F := by
  obtain ⟨y, hy, h⟩ := bind_eq_ok.mp h
  have hfield := (PrimeField.element_ok hy).1
  split at h
  · exact (Element.field_neg h).trans hfield
  · cases h
    exact hfield

namespace Draft

/-- A draft with its public slot filled in. -/
def withPi (d : Draft) (x : Element) : Draft := { d with selectors := { d.selectors with pi := x } }

/-- What a draft has apart from the public slot. No value is looked up for it. -/
def frame (layout : Layout) (witnesses : List (String × Int)) (field : PrimeField) :
    Except Fault Draft := do
  let d ← (Draft.empty field).withMultiplier layout.multiplier
  let d ← d.withSelectors layout.selectors
  d.withBindings witnesses layout.bindings

/-! Filling the public slot commutes with all other steps. -/

@[simp] theorem field_withPi (d : Draft) (x : Element) : (d.withPi x).field = d.field := rfl

theorem set_withPi (d : Draft) (x : Element) {selector : Selector} (h : selector ≠ .publicInput)
    (v : Value) : (d.withPi x).set selector v = (d.set selector v).map (·.withPi x) := by
  unfold set
  rw [field_withPi]
  cases d.field.element v with
  | error fault => rfl
  | ok y =>
    cases selector with
    | publicInput => exact absurd rfl h
    | _ => rfl

theorem withMultiplier_withPi (d : Draft) (x : Element) (multiplier : Option (Value × Bool)) :
    (d.withPi x).withMultiplier multiplier = (d.withMultiplier multiplier).map (·.withPi x) := by
  cases multiplier with
  | none => rfl
  | some m =>
    obtain ⟨coefficient, negative⟩ := m
    rw [withMultiplier, withMultiplier, field_withPi]
    cases d.field.signedElement coefficient negative with
    | error fault => rfl
    | ok y => exact set_withPi d x (by decide) (.element y)

theorem withSelectors_withPi (d : Draft) (x : Element) (ts : List SelectorTerm) :
    (d.withPi x).withSelectors ts = (d.withSelectors ts).map (·.withPi x) := by
  induction ts generalizing d with
  | nil => rfl
  | cons t ts ih =>
    have hselector : t.wire.selector ≠ .publicInput := by cases t.wire <;> decide
    rw [withSelectors, withSelectors, field_withPi]
    cases d.field.signedElement t.coefficient t.negative with
    | error fault => rfl
    | ok y =>
      rw [ok_bind, ok_bind, set_withPi d x hselector]
      cases d.set t.wire.selector (.element y) with
      | error fault => rfl
      | ok d' => exact ih d'

theorem withBindings_withPi (d : Draft) (x : Element) (witnesses : List (String × Int))
    (bindings : Bindings) :
    (d.withPi x).withBindings witnesses bindings =
      (d.withBindings witnesses bindings).map (·.withPi x) := by
  induction bindings generalizing d with
  | nil => rfl
  | cons binding bindings ih =>
    obtain ⟨wire, name⟩ := binding
    rw [withBindings, withBindings]
    cases witnesses.lookup name with
    | none => rfl
    | some index =>
      refine Eq.trans ?_ (ih (d.attach wire index))
      cases wire <;> rfl

/-- The first step fills the public slot and does nothing else. -/
theorem withPublic_eq (F : PrimeField) (table : VariableTable) (rhs : Option PublicTerm) :
    (Draft.empty F).withPublic table rhs =
      (table.publicSlot F rhs).map (Draft.empty F).withPi := by
  cases rhs with
  | none => rfl
  | some p =>
    rw [withPublic, VariableTable.publicSlot]
    cases table.find? p.name with
    | none => rfl
    | some v =>
      dsimp only
      split
      · cases hx : F.signedElement (.element v.value) (!p.negative) with
        | error fault => simp [empty, hx, Except.map]
        | ok x =>
          have helement := PrimeField.element_self (PrimeField.field_signedElement hx)
          simp [empty, set, hx, helement, Except.map, withPi, Selectors.set]
      · rfl

/-- **A draft is a frame with the public slot filled in.** -/
theorem ofLayout_eq (layout : Layout) (table : VariableTable) (witnesses : List (String × Int))
    (F : PrimeField) :
    ofLayout layout table witnesses F = table.publicSlot F layout.rhs >>= fun x =>
      (frame layout witnesses F).map (·.withPi x) := by
  rw [ofLayout, withPublic_eq]
  cases table.publicSlot F layout.rhs with
  | error fault => rfl
  | ok x =>
    simp only [ok_map, ok_bind]
    rw [withMultiplier_withPi, frame]
    cases (Draft.empty F).withMultiplier layout.multiplier with
    | error fault => rfl
    | ok d =>
      simp only [ok_map, ok_bind]
      rw [withSelectors_withPi]
      cases d.withSelectors layout.selectors with
      | error fault => rfl
      | ok d => exact withBindings_withPi d x witnesses layout.bindings

end Draft

/-! ## Weights -/

namespace Weights

def zero : Weights := ⟨0, 0, 0, 0, 0, 0⟩

def set (w : Weights) (selector : Selector) (n : Int) : Weights :=
  match selector with
  | .mult => { w with qm := n }
  | .left => { w with ql := n }
  | .right => { w with qr := n }
  | .output => { w with qo := n }
  | .constant => { w with qc := n }
  | .publicInput => { w with pi := n }

theorem selectors_set (w : Weights) (F : PrimeField) (selector : Selector) (n : Int) :
    (w.set selector n).selectors F = (w.selectors F).set selector (.number (F.reduce n)) := by
  cases selector <;> rfl

/-- The weight that belongs to a wire. -/
def onWire (w : Weights) : Wire → Int
  | .a => w.ql
  | .b => w.qr
  | .o => w.qo

/-- The part of the left side that is linear in the values on the wires. -/
def linear (w : Weights) (x : Wire → Int) : Int := w.ql * x .a + w.qr * x .b + w.qo * x .o

theorem onWire_set (w : Weights) (wire u : Wire) (n : Int) :
    (w.set wire.selector n).onWire u = if u = wire then n else w.onWire u := by
  cases wire <;> cases u <;> rfl

theorem linear_set {w : Weights} {wire : Wire} (h : w.onWire wire = 0) (n : Int)
    (x : Wire → Int) : (w.set wire.selector n).linear x = w.linear x + n * x wire := by
  cases wire with
  | a => simp only [set, Wire.selector, linear, show w.ql = 0 from h]; ring
  | b => simp only [set, Wire.selector, linear, show w.qr = 0 from h]; ring
  | o => simp only [set, Wire.selector, linear, show w.qo = 0 from h]; ring

/-- The weight of a selector of a linear term. -/
def ofTerm (t : SelectorTerm) : Int := signedInt t.negative t.coefficient.toInt

/-- Sets the weights of linear terms one after the other. -/
def setAll (w : Weights) (ts : List SelectorTerm) : Weights :=
  ts.foldl (fun w t => w.set t.wire.selector (ofTerm t)) w

/-- **Weights on different wires that were free add up.** -/
theorem linear_setAll {w : Weights} {ts : List SelectorTerm} (hnodup : (ts.map (·.wire)).Nodup)
    (hfree : ∀ t ∈ ts, w.onWire t.wire = 0) (x : Wire → Int) :
    (w.setAll ts).linear x = w.linear x + (ts.map fun t => ofTerm t * x t.wire).sum := by
  induction ts generalizing w with
  | nil => simp [setAll]
  | cons t ts ih =>
    obtain ⟨hout, hnodup⟩ := List.nodup_cons.mp hnodup
    -- no later term is on the wire that was just set, so the other wires are still free
    have hrest : ∀ u ∈ ts, (w.set t.wire.selector (ofTerm t)).onWire u.wire = 0 := by
      intro u hu
      have hne : u.wire ≠ t.wire := fun he => hout (List.mem_map.mpr ⟨u, hu, he⟩)
      rw [onWire_set, if_neg hne]
      exact hfree u (List.mem_cons_of_mem t hu)
    rw [setAll, List.foldl_cons]
    refine (ih hnodup hrest).trans ?_
    rw [linear_set (hfree t List.mem_cons_self), List.map_cons, List.sum_cons]
    ring

/-- Linear terms leave the other weights as they are. -/
theorem setAll_others (w : Weights) (ts : List SelectorTerm) :
    (w.setAll ts).qm = w.qm ∧ (w.setAll ts).qc = w.qc ∧ (w.setAll ts).pi = w.pi := by
  induction ts generalizing w with
  | nil => exact ⟨rfl, rfl, rfl⟩
  | cons t ts ih =>
    obtain ⟨hqm, hqc, hpi⟩ := ih (w.set t.wire.selector (ofTerm t))
    rw [setAll, List.foldl_cons]
    refine ⟨hqm.trans ?_, hqc.trans ?_, hpi.trans ?_⟩ <;> cases t.wire <;> rfl

end Weights

namespace Layout

/-- The weights before linear terms are set. -/
def multiplierWeights : Option (Value × Bool) → Weights
  | none => .zero
  | some (coefficient, negative) => Weights.zero.set .mult (signedInt negative coefficient.toInt)

/-- The weights of a layout with integer coefficients. The public slot is left empty. -/
def weights (layout : Layout) : Weights :=
  (multiplierWeights layout.multiplier).setAll layout.selectors

theorem signedInt_mul (negative : Bool) (m n : Int) :
    signedInt negative (m * n) = signedInt negative m * n := by
  cases negative with
  | true => exact (Int.neg_mul m n).symm
  | false => rfl

/-- The weights of the selectors are those of the terms that they belong to. -/
theorem sum_places {bindings : Bindings} {v : String → Int} {x : Wire → Int}
    (hx : ∀ wire name, bindings.lookup wire = some name → x wire = v name)
    {ts : List LinearTerm} {selectors : List SelectorTerm}
    (h : List.Forall₂ (Places bindings) ts selectors) :
    (selectors.map fun s => Weights.ofTerm s * x s.wire).sum = (ts.map (·.value v)).sum := by
  induction h with
  | nil => rfl
  | @cons t s ts selectors hplaces _ ih =>
    have hterm : Weights.ofTerm s * x s.wire = t.value v := by
      rw [hx s.wire t.name hplaces.2, hplaces.1, Weights.ofTerm, LinearTerm.value, signedInt_mul]
      rfl
    rw [List.map_cons, List.map_cons, List.sum_cons, List.sum_cons, hterm, ih]

/-- Linear terms and the multiplier leave the constant and the public slot empty. -/
theorem weights_others (layout : Layout) : layout.weights.qc = 0 ∧ layout.weights.pi = 0 := by
  obtain ⟨-, hqc, hpi⟩ :=
    Weights.setAll_others (multiplierWeights layout.multiplier) layout.selectors
  rw [weights, hqc, hpi]
  cases layout.multiplier <;> exact ⟨rfl, rfl⟩

/-- **The weights of a layout add up to the left side of its expression.** -/
theorem eval_weights {layout : Layout} {e : Expression} (h : layout.Describes e)
    (hlinear : (e.linear.map (·.name)).Nodup) {v : String → Int} {x : Wire → Int}
    (hx : ∀ wire name, layout.bindings.lookup wire = some name → x wire = v name) :
    layout.weights.eval (x .a) (x .b) (x .o) = e.leftSide v := by
  obtain ⟨hqc, hpi⟩ := layout.weights_others
  have hsum : layout.weights.linear x = (e.linear.map (·.value v)).sum := by
    have hfree : ∀ s ∈ layout.selectors,
        (multiplierWeights layout.multiplier).onWire s.wire = 0 := by
      intro s _
      cases layout.multiplier <;> cases s.wire <;> rfl
    have hzero : (multiplierWeights layout.multiplier).linear x = 0 := by
      cases layout.multiplier <;>
        simp [multiplierWeights, Weights.zero, Weights.set, Weights.linear]
    rw [weights, Weights.linear_setAll (h.wires_nodup hlinear) hfree, hzero, Int.zero_add,
      sum_places hx h.terms]
  have hproduct : layout.weights.qm * x .a * x .b = (e.quadratic.map (·.value v)).getD 0 := by
    rw [weights, (Weights.setAll_others _ _).1, h.multiplier]
    cases hq : e.quadratic with
    | none => simp [multiplierWeights, Weights.zero]
    | some t =>
      obtain ⟨ha, hb⟩ := h.operands t hq
      rw [hx .a t.left ha, hx .b t.right hb]
      simp [multiplierWeights, Weights.set, QuadraticTerm.value, signedInt_mul]
  calc layout.weights.eval (x .a) (x .b) (x .o)
      = layout.weights.qm * x .a * x .b + layout.weights.linear x +
          (layout.weights.qc + layout.weights.pi) := by
        rw [Weights.eval, Weights.linear]; ring
    _ = e.leftSide v := by
        rw [hproduct, hsum, hqc, hpi, Expression.leftSide]; ring

end Layout

/-! ## Frames with integer coefficients -/

theorem PrimeField.signedElement_int (F : PrimeField) (n : Int) (negative : Bool) :
    F.signedElement (.int n) negative = .ok (.number (F.reduce (signedInt negative n))) := by
  cases negative with
  | true =>
    show (Element.number (F.reduce n)).neg = _
    rw [Element.neg_reduce]
    rfl
  | false => rfl

theorem PrimeField.signedElement_reduce (F : PrimeField) (n : Int) (negative : Bool) :
    F.signedElement (.element (.number (F.reduce n))) negative =
      .ok (.number (F.reduce (signedInt negative n))) := by
  have helement : F.element (.element (.number (F.reduce n))) = F.element (.int n) :=
    PrimeField.element_self rfl
  rw [signedElement, helement]
  exact F.signedElement_int n negative

/-- All coefficients of a layout are integers. -/
structure Layout.IsIntegral (layout : Layout) : Prop where
  multiplier : ∀ m, layout.multiplier = some m → m.1.isInt = true
  selectors : ∀ s ∈ layout.selectors, s.coefficient.isInt = true

theorem Layout.Describes.isIntegral {layout : Layout} {e : Expression} (h : layout.Describes e)
    (he : e.IsIntegral) : layout.IsIntegral where
  multiplier := by
    intro m hm
    rw [h.multiplier] at hm
    obtain ⟨t, ht, rfl⟩ := Option.map_eq_some_iff.mp hm
    exact he.quadratic t ht
  selectors := by
    intro s hs
    obtain ⟨t, ht, hplaces⟩ := exists_of_forall₂ h.terms hs
    rw [hplaces.1]
    exact he.linear t ht

namespace Draft

variable {F : PrimeField} {w : Weights}

/-- A draft over integers, with its wires attached as a function says. -/
def ofWeights (F : PrimeField) (w : Weights) (index : Wire → Option Int) : Draft :=
  ⟨F, w.selectors F, index .a, index .b, index .o⟩

theorem set_ofWeights (index : Wire → Option Int) (selector : Selector) (n : Int) :
    (ofWeights F w index).set selector (.element (.number (F.reduce n))) =
      .ok (ofWeights F (w.set selector n) index) := by
  have helement : F.element (.element (.number (F.reduce n))) = .ok (.number (F.reduce n)) :=
    PrimeField.element_self rfl
  simp [set, ofWeights, helement, Weights.selectors_set]

theorem withSelectors_ofWeights (index : Wire → Option Int) {ts : List SelectorTerm}
    (h : ∀ t ∈ ts, t.coefficient.isInt = true) :
    (ofWeights F w index).withSelectors ts = .ok (ofWeights F (w.setAll ts) index) := by
  induction ts generalizing w with
  | nil => rfl
  | cons t ts ih =>
    have hcoefficient := Value.eq_int_of_isInt (h t List.mem_cons_self)
    rw [withSelectors, hcoefficient, show (ofWeights F w index).field = F from rfl,
      PrimeField.signedElement_int, ok_bind, set_ofWeights, ok_bind]
    exact ih fun u hu => h u (List.mem_cons_of_mem t hu)

theorem attach_ofWeights (index : Wire → Option Int) (wire : Wire) (i : Int) :
    (ofWeights F w index).attach wire i =
      ofWeights F w fun u => if u = wire then some i else index u := by
  cases wire <;> rfl

/-- Every wire that is bound is attached to the witness of its variable. -/
theorem withBindings_ofWeights {witnesses : List (String × Int)} {bindings : Bindings}
    (hnodup : (bindings.map (·.1)).Nodup)
    (hfound : ∀ x ∈ bindings, (witnesses.lookup x.2).isSome) (index : Wire → Option Int) :
    (ofWeights F w index).withBindings witnesses bindings =
      .ok (ofWeights F w fun wire =>
        match bindings.lookup wire with
        | some name => witnesses.lookup name
        | none => index wire) := by
  induction bindings generalizing index with
  | nil => rfl
  | cons binding bindings ih =>
    obtain ⟨first, name⟩ := binding
    obtain ⟨hout, hnodup⟩ := List.nodup_cons.mp hnodup
    obtain ⟨i, hi⟩ := Option.isSome_iff_exists.mp (hfound (first, name) List.mem_cons_self)
    rw [withBindings]
    simp only [hi]
    rw [attach_ofWeights, ih hnodup fun x hx => hfound x (List.mem_cons_of_mem _ hx)]
    congr 2
    funext wire
    rw [List.lookup_cons]
    by_cases hwire : wire = first
    · -- the wire is not bound again, so what was attached first stays
      have hnone : bindings.lookup first = none := by
        rw [List.lookup_eq_none_iff]
        intro x hx
        have hne : x.1 ≠ first := fun he => hout (List.mem_map.mpr ⟨x, hx, he⟩)
        simpa using hne.symm
      simp [hwire, hnone, hi]
    · have hbeq : (wire == first) = false := by simpa using hwire
      simp [hwire, hbeq]

/-- The index of the witness on a wire of a layout. -/
def indexOn (layout : Layout) (witnesses : List (String × Int)) (wire : Wire) : Option Int :=
  match layout.bindings.lookup wire with
  | some name => witnesses.lookup name
  | none => none

/-- **With integer coefficients and all witnesses at hand there is a frame, by the weights.** -/
theorem frame_eq_ok {layout : Layout} {witnesses : List (String × Int)} (h : layout.IsIntegral)
    (hnodup : (layout.bindings.map (·.1)).Nodup)
    (hfound : ∀ x ∈ layout.bindings, (witnesses.lookup x.2).isSome) :
    frame layout witnesses F = .ok (ofWeights F layout.weights (indexOn layout witnesses)) := by
  have hmultiplier : (Draft.empty F).withMultiplier layout.multiplier =
      .ok (ofWeights F (Layout.multiplierWeights layout.multiplier) fun _ => none) := by
    cases hm : layout.multiplier with
    | none => rfl
    | some m =>
      obtain ⟨coefficient, negative⟩ := m
      have hcoefficient := Value.eq_int_of_isInt (h.multiplier _ hm)
      dsimp only at hcoefficient
      rw [withMultiplier, hcoefficient, show (Draft.empty F).field = F from rfl,
        PrimeField.signedElement_int, ok_bind]
      exact set_ofWeights (w := .zero) (fun _ => none) .mult _
  rw [frame, hmultiplier, ok_bind, withSelectors_ofWeights _ h.selectors, ok_bind,
    withBindings_ofWeights hnodup hfound]
  rfl

end Draft

end PlonkGates
