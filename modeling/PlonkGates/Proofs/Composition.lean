import PlonkGates.Proofs.Systems

/-!
# Circuits in one system

A circuit that is added to a system finds the witness that holds zero where it is in a system of its
own, and its own witnesses behind those that were there. So its gates are those that it is lowered
to, with indices shifted (`gateOf_shift`), and they have the same values (`evaluate_shift`). For
circuits that are added one after the other, this is true of each of them (`Composed`).
-/

namespace PlonkGates

/-! ## Shifted gates -/

/-- An index behind `k` more witnesses. The witness that holds zero stays where it is. -/
def shiftIndex (k i : Nat) : Nat := if i = 0 then 0 else i + k

/-- The gate with its wires behind `k` more witnesses. -/
def Gate.shift (k : Nat) (g : Gate) : Gate :=
  ⟨g.selectors, shiftIndex k g.a, shiftIndex k g.b, shiftIndex k g.o⟩

theorem lookup_numbered_add (index k : Nat) (ws : List (String × Element)) (name : String) :
    (numbered (index + k) ws).lookup name =
      ((numbered index ws).lookup name).map (· + (k : Int)) := by
  induction ws generalizing index with
  | nil => rfl
  | cons w ws ih =>
    obtain ⟨first, x⟩ := w
    rw [numbered, numbered, List.lookup_cons, List.lookup_cons]
    cases hname : name == first with
    | true => simp
    | false =>
      have hnext : index + k + 1 = index + 1 + k := by omega
      simpa [hnext] using ih (index + 1)

namespace ConstraintSystem

variable {F : PrimeField} {s : ConstraintSystem} {xs : List Element} {gs gs' : List Gate} {g : Gate}

theorem WellFormed.length_eq (h : WellFormed F s) : s.witnesses.length = 1 + s.witnessCount := by
  have hpos := h.length_pos
  rw [witnessCount]
  omega

/-- A shifted index leads to the same value. -/
theorem getElem?_shiftIndex (h : WellFormed F s) {i : Nat} {x : Element}
    (hx : ((empty F).grown xs gs).witnesses[i]? = some x) :
    (s.grown xs gs').witnesses[shiftIndex s.witnessCount i]? = some x := by
  have hlength := h.length_eq
  simp only [grown, empty] at hx ⊢
  cases i with
  | zero =>
    rw [shiftIndex, if_pos rfl, List.getElem?_append_left h.length_pos, h.zero]
    simpa using hx
  | succ j =>
    have hj : j + 1 + s.witnessCount - s.witnesses.length = j := by omega
    rw [shiftIndex, if_neg (by omega), List.getElem?_append_right (by omega), hj]
    simpa using hx

/-- **A shifted gate has the value of the gate.** -/
theorem evaluate_shift (h : WellFormed F s)
    (hg : ∀ i ∈ g.wires, i < ((empty F).grown xs gs).witnesses.length) :
    (s.grown xs gs').evaluate (g.shift s.witnessCount) = ((empty F).grown xs gs).evaluate g := by
  have hwire : ∀ i ∈ g.wires, ∃ x, ((empty F).grown xs gs).witnesses[i]? = some x := fun i hi =>
    ⟨_, List.getElem?_eq_getElem (hg i hi)⟩
  obtain ⟨a, ha⟩ := hwire g.a (by simp [Gate.wires])
  obtain ⟨b, hb⟩ := hwire g.b (by simp [Gate.wires])
  obtain ⟨o, ho⟩ := hwire g.o (by simp [Gate.wires])
  exact evaluate_congr rfl ha hb ho (getElem?_shiftIndex h ha) (getElem?_shiftIndex h hb)
    (getElem?_shiftIndex h ho)

end ConstraintSystem

namespace Circuit

open ConstraintSystem (WellFormed)

variable {F : PrimeField} {c : Circuit} {s : ConstraintSystem}

/-- The indices of a circuit are those in a system of its own, shifted. -/
theorem lookup_indices (hs : WellFormed F s) (name : String) : (c.indices s).lookup name =
    ((c.indices (.empty F)).lookup name).map (· + (s.witnessCount : Int)) := by
  rw [indices, hs.length_eq]
  exact lookup_numbered_add 1 s.witnessCount c.table.witnesses name

theorem wireIndex_shift (hs : WellFormed F s) (layout : Layout) (wire : Wire) :
    (c.withWitnesses s).wireIndex (Draft.indexOn layout (c.indices s) wire) =
      ((c.withWitnesses (.empty F)).wireIndex
        (Draft.indexOn layout (c.indices (.empty F)) wire)).map (shiftIndex s.witnessCount) := by
  have hlength := hs.length_eq
  unfold Draft.indexOn
  cases layout.bindings.lookup wire with
  | none => rfl
  | some name =>
    simp only [lookup_indices hs]
    cases hname : (c.indices (.empty F)).lookup name with
    | none => rfl
    | some i =>
      obtain ⟨hlower, hupper⟩ := lookup_numbered_bounds hname
      have hone : (ConstraintSystem.empty F).witnesses.length = 1 := rfl
      rw [hone] at hlower hupper
      have hown : 0 ≤ i ∧ i < (c.withWitnesses (.empty F)).witnesses.length := by
        simp only [withWitnesses, List.length_append, List.length_map, hone]
        omega
      have hshared : 0 ≤ i + (s.witnessCount : Int) ∧
          i + (s.witnessCount : Int) < (c.withWitnesses s).witnesses.length := by
        simp only [withWitnesses, List.length_append, List.length_map, hlength]
        omega
      simp only [Option.map_some, ConstraintSystem.wireIndex, if_pos hown, if_pos hshared, ok_map]
      rw [shiftIndex, if_neg (by omega)]
      congr 1
      omega

/-- A draft over the wires of a layout becomes a shifted gate. -/
theorem gateOf_indexOn_shift (hs : WellFormed F s) (layout : Layout) (weights : Weights)
    (x : Element) :
    (c.withWitnesses s).gateOf
        ((Draft.ofWeights F weights (Draft.indexOn layout (c.indices s))).withPi x) =
      ((c.withWitnesses (.empty F)).gateOf ((Draft.ofWeights F weights
        (Draft.indexOn layout (c.indices (.empty F)))).withPi x)).map (Gate.shift s.witnessCount) :=
  ConstraintSystem.gateOf_rewire rfl hs.field.symm rfl (wireIndex_shift hs layout .a)
    (wireIndex_shift hs layout .b) (wireIndex_shift hs layout .o)

/-- **The gate of an expression is that in a system of its own, shifted.** -/
theorem Accepted.gateOf_shift (h : c.Accepted) (hs : WellFormed c.field s) {e : Expression}
    (he : e ∈ c.expressions) (hint : e.IsIntegral) :
    c.gateOf (c.withWitnesses s) (c.indices s) e =
      (c.gateOf (c.withWitnesses (.empty c.field)) (c.indices (.empty c.field)) e).map
        (Gate.shift s.witnessCount) := by
  obtain ⟨layout, hok⟩ := Layout.exists_layout (h.fits e he)
  have hlayout := Layout.describes_of_ok hok
  rw [gateOf, gateOf, hok, ok_bind, ok_bind, h.ofLayout_eq he hint hlayout,
    h.ofLayout_eq he hint hlayout]
  cases c.table.publicSlot c.field e.rhs with
  | error fault => rfl
  | ok x => exact gateOf_indexOn_shift hs layout layout.weights x

/-! ## Adding one circuit -/

/-- A circuit of a program with integer coefficients, after calls that supply any values. -/
def Supplied (F : PrimeField) (c : Circuit) : Prop :=
  ∃ es start calls, ofExpressions F es = .ok start ∧ (∀ e ∈ es, e.IsIntegral) ∧
    c = start.afterCalls calls

theorem Supplied.accepted (h : c.Supplied F) : c.Accepted := by
  obtain ⟨es, start, calls, hstart, -, rfl⟩ := h
  exact (accepted_ofExpressions hstart).afterCalls calls

theorem Supplied.field_eq (h : c.Supplied F) : c.field = F := by
  obtain ⟨es, start, calls, hstart, -, rfl⟩ := h
  obtain ⟨-, rfl⟩ := ofExpressions_ok hstart
  rw [field_afterCalls]

theorem Supplied.isIntegral (h : c.Supplied F) : ∀ e ∈ c.expressions, e.IsIntegral := by
  obtain ⟨es, start, calls, hstart, hint, rfl⟩ := h
  obtain ⟨-, rfl⟩ := ofExpressions_ok hstart
  rw [expressions_afterCalls]
  exact hint

/-- The gates of a circuit in a system of its own. -/
theorem lower_ok {l : LoweredCircuit} (h : c.Supplied F) (hl : c.lower = .ok l) :
    l.system = (ConstraintSystem.empty F).grown (c.table.witnesses.map (·.2)) l.gates ∧
      List.Forall₂
        (fun e g => c.gateOf (c.withWitnesses (.empty F)) (c.indices (.empty F)) e = .ok g)
        c.expressions l.gates := by
  obtain ⟨gates, hgates, rfl⟩ := (lower_eq_ok_iff h.accepted.inField).mp hl
  rw [h.field_eq] at hgates ⊢
  exact ⟨rfl, hgates⟩

theorem addTo_eq_grown {l : LoweredCircuit} (h : c.Supplied F) (hs : WellFormed F s)
    (hl : c.lower = .ok l) :
    c.addTo s = (s.grown (c.table.witnesses.map (·.2)) (l.gates.map (Gate.shift s.witnessCount)),
      .ok ()) := by
  obtain ⟨-, hgates⟩ := lower_ok h hl
  have hfield := h.field_eq
  subst hfield
  have hshifted : List.Forall₂ (fun e g => c.gateOf (c.withWitnesses s) (c.indices s) e = .ok g)
      c.expressions (l.gates.map (Gate.shift s.witnessCount)) := by
    rw [List.forall₂_map_right_iff]
    refine (forall₂_mem hgates).imp fun e g hg => ?_
    rw [h.accepted.gateOf_shift hs hg.1 (h.isIntegral e hg.1), hg.2]
    rfl
  rw [addTo_eq hs.field h.accepted.inField, gatesFrom_eq_ok_iff.mpr hshifted]
  rfl

/-- A circuit can be added exactly if it can be lowered. -/
theorem exists_lower_of_addTo (h : c.Supplied F) (hs : WellFormed F s)
    (hok : (c.addTo s).2 = .ok ()) : ∃ l, c.lower = .ok l := by
  have hfield := h.field_eq
  subst hfield
  rw [addTo_eq hs.field h.accepted.inField] at hok
  have hgates := gatesFrom_eq_ok_iff.mp (Prod.ext rfl hok)
  have hown : ∀ e ∈ c.expressions, ∃ g,
      c.gateOf (c.withWitnesses (.empty c.field)) (c.indices (.empty c.field)) e = .ok g := by
    intro e he
    obtain ⟨g, -, hg⟩ := exists_of_forall₂ hgates.flip he
    rw [h.accepted.gateOf_shift hs he (h.isIntegral e he)] at hg
    obtain ⟨g, hg, -⟩ := map_eq_ok.mp hg
    exact ⟨g, hg⟩
  obtain ⟨gates, hgates⟩ := exists_forall₂ hown
  exact ⟨_, (lower_eq_ok_iff h.accepted.inField).mpr ⟨gates, hgates, rfl⟩⟩

/-- What a circuit adds to a system: the gates that it is lowered to, shifted, with their values. -/
structure Adds (s : ConstraintSystem) (l : LoweredCircuit) (t : ConstraintSystem) : Prop where
  grows : s.Grows t
  gates : t.gates = s.gates ++ l.gates.map (Gate.shift s.witnessCount)
  evaluate_new : ∀ g ∈ l.gates, t.evaluate (g.shift s.witnessCount) = l.system.evaluate g

theorem adds_of_addTo {l : LoweredCircuit} {t : ConstraintSystem} (h : c.Supplied F)
    (hs : WellFormed F s) (hl : c.lower = .ok l) (ht : c.addTo s = (t, .ok ())) : Adds s l t := by
  have hgrows := ConstraintSystem.grows_addTo c s
  rw [ht] at hgrows
  rw [addTo_eq_grown h hs hl] at ht
  obtain ⟨rfl, -⟩ := Prod.mk.inj ht
  refine ⟨hgrows, rfl, fun g hg => ?_⟩
  obtain ⟨hsystem, hgates⟩ := lower_ok h hl
  obtain ⟨e, -, hgate⟩ := exists_of_forall₂ hgates hg
  rw [hsystem]
  exact ConstraintSystem.evaluate_shift hs (wires_gateOf hgate)

end Circuit

/-! ## Adding circuits one after the other -/

namespace ConstraintSystem

/-- Adds circuits in order, up to the first that fails. -/
def addAll (s : ConstraintSystem) : List Circuit → ConstraintSystem × Except Fault Unit
  | [] => (s, .ok ())
  | c :: cs => match c.addTo s with
    | (t, .ok ()) => addAll t cs
    | (t, .error fault) => (t, .error fault)

/-- A system that circuits were added to: what was there is unchanged, and each circuit has added
the gates that it is lowered to, behind the witnesses that were there before it. -/
structure Composed (s : ConstraintSystem) (cs : List Circuit) (t : ConstraintSystem) : Prop where
  part : Extends s t
  evaluate_old : ∀ g ∈ s.gates, t.evaluate g = s.evaluate g
  added : ∀ {before after : List Circuit} {c : Circuit} {l : LoweredCircuit},
    cs = before ++ c :: after → c.lower = .ok l →
    ∃ u v, s.addAll before = (u, .ok ()) ∧ c.addTo u = (v, .ok ()) ∧ Extends v t ∧
      v.gates = u.gates ++ l.gates.map (Gate.shift u.witnessCount) ∧
      ∀ g ∈ l.gates, t.evaluate (g.shift u.witnessCount) = l.system.evaluate g
  satisfied_iff : t.isSatisfied = .ok true ↔ s.isSatisfied = .ok true ∧
    ∀ c ∈ cs, ∀ l, c.lower = .ok l → l.system.isSatisfied = .ok true

variable {F : PrimeField} {s t u : ConstraintSystem} {c : Circuit} {cs : List Circuit}
  {l : LoweredCircuit}

theorem addAll_cons (h : c.addTo s = (t, .ok ())) : s.addAll (c :: cs) = t.addAll cs := by
  rw [addAll, h]

theorem composed_nil (s : ConstraintSystem) : Composed s [] s where
  part := .refl s
  evaluate_old _ _ := rfl
  added h := by simp at h
  satisfied_iff := by simp

/-- A system with one more circuit is satisfied if it was, and the circuit is on its own. -/
theorem isSatisfied_of_adds (hs : WellFormed F s) (h : Circuit.Adds s l t) :
    t.isSatisfied = .ok true ↔ s.isSatisfied = .ok true ∧ l.system.isSatisfied = .ok true := by
  rw [isSatisfied_iff, isSatisfied_iff, isSatisfied_iff, h.gates, List.forall_mem_append,
    List.forall_mem_map]
  refine and_congr (forall₂_congr fun g hg => ?_) (forall₂_congr fun g hg => ?_)
  · rw [Holds, Holds, evaluate_of_extends (hs.wires g hg) h.grows.extends]
  · rw [Holds, Holds, h.evaluate_new g hg]

/-- A circuit is added in front of the others. -/
theorem Composed.cons (hs : WellFormed F s) (hl : c.lower = .ok l) (hu : c.addTo s = (u, .ok ()))
    (hadds : Circuit.Adds s l u) (h : Composed u cs t) : Composed s (c :: cs) t := by
  have hpart := hadds.grows.extends.trans h.part
  refine ⟨hpart, fun g hg => evaluate_of_extends (hs.wires g hg) hpart, ?_, ?_⟩
  · intro before after d m hcs hm
    cases before with
    | nil =>
      obtain ⟨rfl, rfl⟩ := List.cons.inj hcs
      obtain rfl := Except.ok.inj (hl.symm.trans hm)
      refine ⟨s, u, rfl, hu, h.part, hadds.gates, fun g hg => ?_⟩
      have hmem : g.shift s.witnessCount ∈ u.gates := by
        rw [hadds.gates]
        exact List.mem_append_right _ (List.mem_map_of_mem hg)
      rw [evaluate_of_extends ((hs.grows hadds.grows).wires _ hmem) h.part]
      exact hadds.evaluate_new g hg
    | cons b before =>
      obtain ⟨rfl, htail⟩ := List.cons.inj hcs
      obtain ⟨v, w, hv, hrest⟩ := h.added htail hm
      exact ⟨v, w, (addAll_cons hu).trans hv, hrest⟩
  · have hown : (∀ m, c.lower = .ok m → m.system.isSatisfied = .ok true) ↔
        l.system.isSatisfied = .ok true := by
      simp [hl]
    rw [h.satisfied_iff, isSatisfied_of_adds hs hadds, List.forall_mem_cons, hown, and_assoc]

/-- Circuits that can be lowered are added. -/
theorem exists_composed (hs : WellFormed F s) (hcs : ∀ c ∈ cs, c.Supplied F)
    (hlower : ∀ c ∈ cs, ∃ l, c.lower = .ok l) :
    ∃ t, s.addAll cs = (t, .ok ()) ∧ Composed s cs t := by
  induction cs generalizing s with
  | nil => exact ⟨s, rfl, composed_nil s⟩
  | cons c cs ih =>
    obtain ⟨hc, hcs⟩ := List.forall_mem_cons.mp hcs
    obtain ⟨⟨l, hl⟩, hlower⟩ := List.forall_mem_cons.mp hlower
    have hu := Circuit.addTo_eq_grown hc hs hl
    have hadds := Circuit.adds_of_addTo hc hs hl hu
    obtain ⟨t, ht, hcomposed⟩ := ih (hs.grows hadds.grows) hcs hlower
    exact ⟨t, (addAll_cons hu).trans ht, .cons hs hl hu hadds hcomposed⟩

/-- Circuits that are added can be lowered. -/
theorem exists_lower_of_addAll (hs : WellFormed F s) (hcs : ∀ c ∈ cs, c.Supplied F)
    (hok : (s.addAll cs).2 = .ok ()) : ∀ c ∈ cs, ∃ l, c.lower = .ok l := by
  induction cs generalizing s with
  | nil => simp
  | cons c cs ih =>
    obtain ⟨hc, hcs⟩ := List.forall_mem_cons.mp hcs
    cases hu : c.addTo s with
    | mk u result =>
    cases result with
    | error fault =>
      rw [addAll, hu] at hok
      cases hok
    | ok value =>
      have hgrows := grows_addTo c s
      rw [hu] at hgrows
      rw [addAll_cons hu] at hok
      have hfirst := Circuit.exists_lower_of_addTo hc hs (by rw [hu])
      exact List.forall_mem_cons.mpr ⟨hfirst, ih (hs.grows hgrows) hcs hok⟩

/-- **Circuits compose in one system.** In a system that can be reached, circuits over its field are
added one after the other if and only if each of them can be lowered, which is so if the supplied
values are residues. Then what was in the system is unchanged, the gates of each circuit are those
that it is lowered to, shifted behind the witnesses before it, and all gates have the values that
they have in their own systems. -/
theorem addAll_composes (hs : Reachable F s) (hcs : ∀ c ∈ cs, c.Supplied F) :
    ((s.addAll cs).2 = .ok () ↔ ∀ c ∈ cs, ∃ l, c.lower = .ok l) ∧
      ((∀ c ∈ cs, c.table.HoldsNumbers) → (s.addAll cs).2 = .ok ()) ∧
      ((s.addAll cs).2 = .ok () → Composed s cs (s.addAll cs).1) := by
  have hcomposed : (∀ c ∈ cs, ∃ l, c.lower = .ok l) →
      (s.addAll cs).2 = .ok () ∧ Composed s cs (s.addAll cs).1 := by
    intro hlower
    obtain ⟨t, ht, hcomposed⟩ := exists_composed hs.wellFormed hcs hlower
    rw [ht]
    exact ⟨rfl, hcomposed⟩
  have hlower := exists_lower_of_addAll hs.wellFormed hcs
  refine ⟨⟨hlower, fun h => (hcomposed h).1⟩, fun hnumbers => ?_, fun h => (hcomposed (hlower h)).2⟩
  refine (hcomposed fun c hc => ?_).1
  exact (hcs c hc).accepted.exists_lower (hcs c hc).isIntegral (hnumbers c hc)

/-- A circuit is added twice to a system with a witness of its own. -/
theorem addAll_composes_twice :
    ∃ s c, Reachable Circuit.exampleField s ∧ s.witnessCount = 1 ∧
      c.Supplied Circuit.exampleField ∧ c.table.HoldsNumbers ∧ c.expressions.length = 2 ∧
      (s.addAll [c, c]).2 = .ok () ∧ Composed s [c, c] (s.addAll [c, c]).1 := by
  have hs : Reachable Circuit.exampleField
      ((empty Circuit.exampleField).appendWitness (.int 7)).1 := .appendWitness .empty _
  have hc := Circuit.ofExpressions_eq_ok Circuit.exampleField
    (by rfl : Expression.validate Circuit.exampleProgram = .ok ())
  have hsupplied : Circuit.Supplied Circuit.exampleField _ :=
    ⟨_, _, Circuit.exampleCalls, hc, by decide, rfl⟩
  have hnumbers := Circuit.holdsNumbers_afterCalls (Circuit.holdsNumbers_ofExpressions hc)
    (by decide : Circuit.TextFree Circuit.exampleCalls)
  obtain ⟨-, hok, hcomposed⟩ := addAll_composes hs
    (List.forall_mem_cons.mpr ⟨hsupplied, List.forall_mem_singleton.mpr hsupplied⟩)
  have hadded := hok (List.forall_mem_cons.mpr ⟨hnumbers, List.forall_mem_singleton.mpr hnumbers⟩)
  refine ⟨_, _, hs, rfl, hsupplied, hnumbers, ?_, hadded, hcomposed hadded⟩
  rw [Circuit.expressions_afterCalls]
  rfl

end ConstraintSystem

end PlonkGates
