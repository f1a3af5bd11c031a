import PlonkGates.Circuit.Lowering
import PlonkGates.Proofs.Satisfaction

/-!
# Constraint systems grow

Whatever is done to a constraint system, witnesses and gates are appended to it, and the wires of
new gates lead to witnesses that are there (`Grows`). So in every system that can be reached the
first witness holds zero and no wire leads out of the system (`WellFormed`), and a gate keeps the
value that it has once it is recorded (`evaluate_of_extends`).
-/

namespace PlonkGates

/-- The gate with other indices on its wires. -/
def Gate.rewire (f : Nat → Nat) (g : Gate) : Gate := ⟨g.selectors, f g.a, f g.b, f g.o⟩

namespace ConstraintSystem

variable {F : PrimeField} {s t u : ConstraintSystem} {g : Gate}

/-! ## What is done to a system -/

/-- The system with more witnesses and gates. -/
def grown (s : ConstraintSystem) (xs : List Element) (gs : List Gate) : ConstraintSystem :=
  { s with witnesses := s.witnesses ++ xs, gates := s.gates ++ gs }

/-- Witnesses are appended, and gates that are made of drafts over them. -/
def Grows (s t : ConstraintSystem) : Prop :=
  ∃ xs gs, t = s.grown xs gs ∧ ∀ g ∈ gs, ∃ d, (s.grown xs []).gateOf d = .ok g

@[simp] theorem grown_nil (s : ConstraintSystem) : s.grown [] [] = s := by simp [grown]

theorem Grows.refl (s : ConstraintSystem) : Grows s s := ⟨[], [], by simp, by simp⟩

/-- A value that is turned down changes nothing; any other is recorded as the last witness. -/
theorem appendWitness_cases (s : ConstraintSystem) (v : Value) :
    (∃ fault, s.appendWitness v = (s, .error fault)) ∨
      ∃ x, s.field.element v = .ok x ∧
        s.appendWitness v = (s.grown [x] [], .ok s.witnesses.length) := by
  rw [appendWitness]
  cases s.field.element v with
  | error fault => exact Or.inl ⟨fault, rfl⟩
  | ok x => exact Or.inr ⟨x, rfl, by simp [grown]⟩

/-- A draft that is turned down changes nothing; any other is recorded as the last gate. -/
theorem appendGate_cases (s : ConstraintSystem) (d : Draft) :
    (∃ fault, s.appendGate d = (s, .error fault)) ∨
      ∃ g, s.gateOf d = .ok g ∧ s.appendGate d = (s.grown [] [g], .ok ()) := by
  rw [appendGate]
  cases s.gateOf d with
  | error fault => exact Or.inl ⟨fault, rfl⟩
  | ok g => exact Or.inr ⟨g, rfl, by simp [grown]⟩

theorem grows_appendWitness (s : ConstraintSystem) (v : Value) : Grows s (s.appendWitness v).1 := by
  rcases appendWitness_cases s v with ⟨fault, h⟩ | ⟨x, -, h⟩
  · rw [h]
    exact .refl s
  · rw [h]
    exact ⟨[x], [], rfl, by simp⟩

theorem grows_appendGate (s : ConstraintSystem) (d : Draft) : Grows s (s.appendGate d).1 := by
  rcases appendGate_cases s d with ⟨fault, h⟩ | ⟨g, hg, h⟩
  · rw [h]
    exact .refl s
  · rw [h]
    exact ⟨[], [g], rfl, List.forall_mem_singleton.mpr ⟨d, by rwa [grown_nil]⟩⟩

theorem exists_draft_of_mem_gatesFrom {c : Circuit} {ws : List (String × Int)} {index : Nat}
    {es : List Expression} (hg : g ∈ (c.gatesFrom s ws index es).1) :
    ∃ d, s.gateOf d = .ok g := by
  induction es generalizing index with
  | nil => cases hg
  | cons e es ih =>
    rw [Circuit.gatesFrom] at hg
    cases hd : (c.draft ws index e).bind s.gateOf with
    | error fault =>
      rw [hd] at hg
      cases hg
    | ok first =>
      rw [hd] at hg
      rcases List.mem_cons.mp hg with rfl | hg
      · obtain ⟨d, -, hfirst⟩ := bind_eq_ok.mp hd
        exact ⟨d, hfirst⟩
      · exact ih hg

/-- A circuit that fails leaves behind what it has added so far. -/
theorem grows_addTo (c : Circuit) (s : ConstraintSystem) : Grows s (c.addTo s).1 := by
  rw [Circuit.addTo]
  split_ifs with hfield
  · cases hnamed : Circuit.witnessesFrom s.field s.witnesses.length c.table.witnesses with
    | mk xs named =>
    cases named with
    | error fault => exact ⟨xs, [], by simp [grown], by simp⟩
    | ok ws =>
      refine ⟨xs, _, rfl, fun g hg => ?_⟩
      have hsame : s.grown xs [] = { s with witnesses := s.witnesses ++ xs } := by simp [grown]
      rw [hsame]
      exact exists_draft_of_mem_gatesFrom hg
  · exact .refl s

/-- The systems over a field that can be built up from the empty one. Steps may fail. -/
inductive Reachable (F : PrimeField) : ConstraintSystem → Prop where
  | empty : Reachable F (.empty F)
  | appendWitness {s : ConstraintSystem} (hs : Reachable F s) (v : Value) :
      Reachable F (s.appendWitness v).1
  | appendGate {s : ConstraintSystem} (hs : Reachable F s) (d : Draft) :
      Reachable F (s.appendGate d).1
  | addTo {s : ConstraintSystem} (hs : Reachable F s) (c : Circuit) : Reachable F (c.addTo s).1

/-! ## What holds of every system -/

/-- The first witness holds zero, and wires lead to witnesses. -/
structure WellFormed (F : PrimeField) (s : ConstraintSystem) : Prop where
  field : s.field = F
  zero : s.witnesses[0]? = some (.number F.zero)
  wires : ∀ g ∈ s.gates, ∀ i ∈ g.wires, i < s.witnesses.length

theorem WellFormed.length_pos (h : WellFormed F s) : 0 < s.witnesses.length :=
  (List.getElem?_eq_some_iff.mp h.zero).1

theorem wireIndex_lt {index : Option Int} {i : Nat} (hs : 0 < s.witnesses.length)
    (h : s.wireIndex index = .ok i) : i < s.witnesses.length := by
  cases index with
  | none =>
    cases h
    exact hs
  | some index =>
    rw [wireIndex] at h
    split_ifs at h with hin
    cases h
    omega

/-- A gate has the numbers of its draft, which is over the same field, and its checked wires. -/
theorem gateOf_inv {d : Draft} (h : s.gateOf d = .ok g) :
    d.field = s.field ∧ g.selectors = d.selectors ∧ s.wireIndex d.a = .ok g.a ∧
      s.wireIndex d.b = .ok g.b ∧ s.wireIndex d.o = .ok g.o := by
  rw [gateOf] at h
  split_ifs at h with hfield
  obtain ⟨a, ha, h⟩ := bind_eq_ok.mp h
  obtain ⟨b, hb, h⟩ := bind_eq_ok.mp h
  obtain ⟨o, ho, h⟩ := bind_eq_ok.mp h
  cases h
  exact ⟨hfield, rfl, ha, hb, ho⟩

/-- Drafts that differ in their wires become gates that differ in their wires. -/
theorem gateOf_rewire {d d' : Draft} {f : Nat → Nat} (hd : d.field = s.field)
    (hd' : d'.field = t.field) (hselectors : d'.selectors = d.selectors)
    (ha : t.wireIndex d'.a = (s.wireIndex d.a).map f)
    (hb : t.wireIndex d'.b = (s.wireIndex d.b).map f)
    (ho : t.wireIndex d'.o = (s.wireIndex d.o).map f) :
    t.gateOf d' = (s.gateOf d).map (Gate.rewire f) := by
  rw [gateOf, gateOf, if_pos hd, if_pos hd', ha, hb, ho, hselectors]
  cases s.wireIndex d.a with
  | error fault => rfl
  | ok a =>
    cases s.wireIndex d.b with
    | error fault => rfl
    | ok b =>
      cases s.wireIndex d.o with
      | error fault => rfl
      | ok o => rfl

theorem wires_gateOf {d : Draft} (hs : 0 < s.witnesses.length) (h : s.gateOf d = .ok g) :
    ∀ i ∈ g.wires, i < s.witnesses.length := by
  obtain ⟨-, -, ha, hb, ho⟩ := gateOf_inv h
  simp only [Gate.wires, List.forall_mem_cons]
  exact ⟨wireIndex_lt hs ha, wireIndex_lt hs hb, wireIndex_lt hs ho, by simp⟩

theorem wellFormed_empty (F : PrimeField) : WellFormed F (.empty F) where
  field := rfl
  zero := rfl
  wires := by simp [empty]

theorem WellFormed.grows (h : WellFormed F s) (hgrows : Grows s t) : WellFormed F t := by
  obtain ⟨xs, gs, rfl, hgs⟩ := hgrows
  have hlength : s.witnesses.length ≤ (s.grown xs gs).witnesses.length := by simp [grown]
  refine ⟨h.field, ?_, ?_⟩
  · rw [grown, List.getElem?_append_left h.length_pos, h.zero]
  · refine List.forall_mem_append.mpr ⟨fun g hg i hi => ?_, fun g hg => ?_⟩
    · exact Nat.lt_of_lt_of_le (h.wires g hg i hi) hlength
    · obtain ⟨d, hd⟩ := hgs g hg
      exact wires_gateOf (Nat.lt_of_lt_of_le h.length_pos hlength) hd

/-- **In every system that can be reached the first witness holds zero, and wires lead to
witnesses.** -/
theorem Reachable.wellFormed (h : Reachable F s) : WellFormed F s := by
  induction h with
  | empty => exact wellFormed_empty F
  | appendWitness _ v ih => exact ih.grows (grows_appendWitness _ v)
  | appendGate _ d ih => exact ih.grows (grows_appendGate _ d)
  | addTo _ c ih => exact ih.grows (grows_addTo c _)

/-! ## What stays the same -/

/-- The first system is a part of the second one. -/
structure Extends (s t : ConstraintSystem) : Prop where
  field : t.field = s.field
  witnesses : s.witnesses <+: t.witnesses
  gates : s.gates <+: t.gates

theorem Extends.refl (s : ConstraintSystem) : Extends s s :=
  ⟨rfl, List.prefix_rfl, List.prefix_rfl⟩

theorem Extends.trans (h : Extends s t) (h' : Extends t u) : Extends s u :=
  ⟨h'.field.trans h.field, h.witnesses.trans h'.witnesses, h.gates.trans h'.gates⟩

theorem Grows.extends (h : Grows s t) : Extends s t := by
  obtain ⟨xs, gs, rfl, -⟩ := h
  exact ⟨rfl, List.prefix_append _ _, List.prefix_append _ _⟩

/-- The value of a gate depends on its numbers and on the values on its wires. -/
theorem evaluate_congr {g' : Gate} {a b o : Element} (hselectors : g'.selectors = g.selectors)
    (ha : s.witnesses[g.a]? = some a) (hb : s.witnesses[g.b]? = some b)
    (ho : s.witnesses[g.o]? = some o) (ha' : t.witnesses[g'.a]? = some a)
    (hb' : t.witnesses[g'.b]? = some b) (ho' : t.witnesses[g'.o]? = some o) :
    t.evaluate g' = s.evaluate g := by
  rw [evaluate, evaluate, witnessValue_of_getElem? ha, witnessValue_of_getElem? hb,
    witnessValue_of_getElem? ho, witnessValue_of_getElem? ha', witnessValue_of_getElem? hb',
    witnessValue_of_getElem? ho']
  simp only [ok_bind, Gate.evaluate, hselectors]

/-- **A gate keeps its value when its system grows.** -/
theorem evaluate_of_extends (hg : ∀ i ∈ g.wires, i < s.witnesses.length) (h : Extends s t) :
    t.evaluate g = s.evaluate g := by
  obtain ⟨more, hmore⟩ := h.witnesses
  have hwire : ∀ i ∈ g.wires, ∃ x, s.witnesses[i]? = some x ∧ t.witnesses[i]? = some x := by
    intro i hi
    refine ⟨_, List.getElem?_eq_getElem (hg i hi), ?_⟩
    rw [← hmore, List.getElem?_append_left (hg i hi), List.getElem?_eq_getElem (hg i hi)]
  obtain ⟨a, ha, ha'⟩ := hwire g.a (by simp [Gate.wires])
  obtain ⟨b, hb, hb'⟩ := hwire g.b (by simp [Gate.wires])
  obtain ⟨o, ho, ho'⟩ := hwire g.o (by simp [Gate.wires])
  exact evaluate_congr rfl ha hb ho ha' hb' ho'

/-! ## Satisfaction -/

/-- A gate that has the value zero. -/
def Holds (s : ConstraintSystem) (g : Gate) : Prop := ∃ x, s.evaluate g = .ok x ∧ x.isZero = true

theorem nonzeroPositions_eq_nil_iff {index : Nat} {xs : List Element} :
    nonzeroPositions index xs = [] ↔ ∀ x ∈ xs, x.isZero = true := by
  induction xs generalizing index with
  | nil => simp [nonzeroPositions]
  | cons x xs ih =>
    rw [nonzeroPositions, List.forall_mem_cons]
    cases hx : x.isZero with
    | true => simpa [hx] using ih
    | false => simp

/-- **A system is satisfied exactly if all its gates have the value zero.** -/
theorem isSatisfied_iff : s.isSatisfied = .ok true ↔ ∀ g ∈ s.gates, s.Holds g := by
  constructor
  · intro h g hg
    obtain ⟨positions, hpositions, hempty⟩ := map_eq_ok.mp h
    obtain ⟨xs, hxs, rfl⟩ := map_eq_ok.mp hpositions
    rw [List.isEmpty_iff, nonzeroPositions_eq_nil_iff] at hempty
    obtain ⟨x, hx, hvalue⟩ := exists_of_forall₂ (mapM_eq_ok.mp hxs).flip hg
    exact ⟨x, hvalue, hempty x hx⟩
  · intro h
    obtain ⟨xs, hxs⟩ := exists_forall₂ h
    have hleft : s.leftSides = .ok xs := mapM_eq_ok.mpr (hxs.imp fun _ _ hx => hx.1)
    have hzero : nonzeroPositions 0 xs = [] := by
      refine nonzeroPositions_eq_nil_iff.mpr fun x hx => ?_
      obtain ⟨g, -, -, hx⟩ := exists_of_forall₂ hxs hx
      exact hx
    rw [isSatisfied, unsatisfied, hleft, ok_map, ok_map, hzero]
    rfl

end ConstraintSystem

/-- The wires of a gate that a circuit has in a system of its own lead to witnesses there. -/
theorem Circuit.wires_gateOf {c : Circuit} {F : PrimeField} {ws : List (String × Int)}
    {e : Expression} {g : Gate} (h : c.gateOf (c.withWitnesses (.empty F)) ws e = .ok g) :
    ∀ i ∈ g.wires, i < (c.withWitnesses (.empty F)).witnesses.length := by
  -- the gate was made of a draft, whose wires were checked
  obtain ⟨layout, -, h⟩ := bind_eq_ok.mp h
  obtain ⟨d, -, h⟩ := bind_eq_ok.mp h
  have hpos : 0 < (c.withWitnesses (.empty F)).witnesses.length := by
    simp [withWitnesses, ConstraintSystem.empty]
  exact ConstraintSystem.wires_gateOf hpos h

end PlonkGates
