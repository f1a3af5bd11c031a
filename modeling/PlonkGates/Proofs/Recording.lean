import PlonkGates.Proofs.Systems

/-!
# Runs of a constraint system

A run is a sequence of calls that record witnesses and gates, of which some may fail. The gates come
from drafts over any field, with any settings and with wires attached to any index. Whatever is in a
system after a run is zero or a supplied value brought into its field (`origin_of_mem_elements`).
With what is known of all systems that grow, this gives the state invariant
(`recorded_gates_stay_valid`): a recorded gate can always be evaluated, and no later call changes it
or its value.
-/

namespace PlonkGates

/-! ## Drafts -/

namespace Draft

/-- One step in building a draft: a number is set to a supplied value, or a wire is attached. -/
inductive Setting where
  | number (selector : Selector) (v : Value)
  | wire (wire : Wire) (index : Int)

/-- The values that are supplied with a setting. -/
def Setting.values : Setting → List Value
  | number _ v => [v]
  | wire .. => []

def apply (d : Draft) : Setting → Except Fault Draft
  | .number selector v => d.set selector v
  | .wire wire index => .ok (d.attach wire index)

/-- A setting that fails leaves the draft as it was. -/
def adjust (d : Draft) (setting : Setting) : Draft :=
  match d.apply setting with
  | .ok d' => d'
  | .error _ => d

/-- The draft over a field after settings one after the other. -/
def built (F : PrimeField) (settings : List Setting) : Draft := settings.foldl adjust (.empty F)

variable {F : PrimeField} {d d' : Draft} {setting : Setting} {x : Element}

/-- A setting keeps the field, and it brings at most the supplied value into the draft. -/
theorem adjust_brings (d : Draft) (setting : Setting) :
    (d.adjust setting).field = d.field ∧ ∀ x ∈ (d.adjust setting).selectors.toList,
      x ∈ d.selectors.toList ∨ ∃ v ∈ setting.values, d.field.element v = .ok x := by
  cases setting with
  | number selector v =>
    rw [adjust, apply, set]
    cases hy : d.field.element v with
    | error fault => exact ⟨rfl, fun x hx => Or.inl hx⟩
    | ok y =>
      refine ⟨rfl, fun x hx => ?_⟩
      rcases Selectors.mem_toList_set hx with rfl | hx
      · exact Or.inr ⟨v, by simp [Setting.values], hy⟩
      · exact Or.inl hx
  | wire wire index =>
    rw [adjust, apply]
    cases wire <;> exact ⟨rfl, fun x hx => Or.inl hx⟩

/-- **The numbers of a draft are zero or supplied values, brought into its field.** -/
theorem origin_of_mem_built (F : PrimeField) (settings : List Setting) :
    (built F settings).field = F ∧ ∀ x ∈ (built F settings).selectors.toList,
      x = .number F.zero ∨ ∃ setting ∈ settings, ∃ v ∈ setting.values, F.element v = .ok x := by
  induction settings using List.reverseRecOn with
  | nil =>
    refine ⟨rfl, fun x hx => Or.inl ?_⟩
    simpa [built, empty, Selectors.zero, Selectors.toList] using hx
  | append_singleton settings setting ih =>
    obtain ⟨hfield, hold⟩ := ih
    rw [built, List.foldl_append]
    obtain ⟨hkeeps, hbrings⟩ := (built F settings).adjust_brings setting
    refine ⟨hkeeps.trans hfield, fun x hx => ?_⟩
    rcases hbrings x hx with hx | ⟨v, hv, hx⟩
    · refine (hold x hx).imp_right ?_
      rintro ⟨earlier, hearlier, hx⟩
      exact ⟨earlier, List.mem_append_left _ hearlier, hx⟩
    · rw [hfield] at hx
      exact Or.inr ⟨setting, by simp, v, hv, hx⟩

end Draft

namespace ConstraintSystem

variable {F : PrimeField} {s t : ConstraintSystem}

/-! ## Calls -/

/-- A call on a system: a value is recorded as a witness, or a draft as a gate. -/
inductive Call where
  | witness (v : Value)
  | gate (field : PrimeField) (settings : List Draft.Setting)

/-- The values that are supplied with a call. -/
def Call.values : Call → List Value
  | witness v => [v]
  | gate _ settings => settings.flatMap (·.values)

/-- What a call does: the system as it is afterwards, and whether the call fails. -/
def step (s : ConstraintSystem) : Call → ConstraintSystem × Except Fault Unit
  | .witness v => ((s.appendWitness v).1, (s.appendWitness v).2.map fun _ => ())
  | .gate F settings => s.appendGate (Draft.built F settings)

/-- The system after a call, whether it succeeds or fails. -/
def call (s : ConstraintSystem) (c : Call) : ConstraintSystem := (s.step c).1

/-- The system after calls that succeed or fail, one after the other. -/
def afterCalls (s : ConstraintSystem) (calls : List Call) : ConstraintSystem := calls.foldl call s

/-- No supplied value is an element that holds a text. -/
def TextFree (calls : List Call) : Prop := ∀ c ∈ calls, ∀ v ∈ c.values, v.holdsText = false

instance : DecidablePred TextFree := fun calls =>
  inferInstanceAs (Decidable (∀ c ∈ calls, ∀ v ∈ c.values, v.holdsText = false))

theorem afterCalls_append (s : ConstraintSystem) (calls later : List Call) :
    s.afterCalls (calls ++ later) = (s.afterCalls calls).afterCalls later := List.foldl_append

/-- **A call that fails leaves the system as it was.** -/
theorem call_of_error {c : Call} {fault : Fault} (h : (s.step c).2 = .error fault) :
    s.call c = s := by
  cases c with
  | witness v =>
    rcases appendWitness_cases s v with ⟨cause, hstep⟩ | ⟨x, -, hstep⟩
    · rw [call, step, hstep]
    · rw [step, hstep] at h
      cases h
  | gate G settings =>
    rcases appendGate_cases s (Draft.built G settings) with ⟨cause, hstep⟩ | ⟨g, -, hstep⟩
    · rw [call, step, hstep]
    · rw [step, hstep] at h
      cases h

/-- **What every call keeps is kept by all calls.** -/
theorem afterCalls_induction {P : ConstraintSystem → Prop} {calls : List Call} (h : P s)
    (hcall : ∀ c ∈ calls, ∀ s, P s → P (s.call c)) : P (s.afterCalls calls) := by
  induction calls generalizing s with
  | nil => exact h
  | cons c calls ih =>
    rw [afterCalls, List.foldl_cons]
    exact ih (hcall c List.mem_cons_self s h) fun later hlater =>
      hcall later (List.mem_cons_of_mem c hlater)

theorem Reachable.call (hs : Reachable F s) (c : Call) : Reachable F (s.call c) := by
  cases c with
  | witness v => exact hs.appendWitness v
  | gate G settings => exact hs.appendGate _

theorem reachable_afterCalls (F : PrimeField) (calls : List Call) :
    Reachable F ((empty F).afterCalls calls) :=
  afterCalls_induction .empty fun c _ _ hs => hs.call c

theorem extends_call (s : ConstraintSystem) (c : Call) : Extends s (s.call c) := by
  cases c with
  | witness v => exact (grows_appendWitness s v).extends
  | gate G settings => exact (grows_appendGate s _).extends

theorem extends_afterCalls (s : ConstraintSystem) (calls : List Call) :
    Extends s (s.afterCalls calls) :=
  afterCalls_induction (.refl s) fun c _ t ht => ht.trans (extends_call t c)

/-! ## What is in a system -/

/-- The values of the witnesses and the numbers of the gates. -/
def elements (s : ConstraintSystem) : List Element :=
  s.witnesses ++ s.gates.flatMap (·.selectors.toList)

theorem mem_elements_grown {xs : List Element} {gs : List Gate} {x : Element} :
    x ∈ (s.grown xs gs).elements ↔
      x ∈ s.elements ∨ x ∈ xs ∨ ∃ g ∈ gs, x ∈ g.selectors.toList := by
  simp only [elements, grown, List.mem_append, List.flatMap_append, List.mem_flatMap]
  exact or_or_or_comm

/-- A call brings at most zero and the supplied values into a system. -/
theorem call_brings {c : Call} {x : Element} (hx : x ∈ (s.call c).elements) :
    x ∈ s.elements ∨ x = .number s.field.zero ∨ ∃ v ∈ c.values, s.field.element v = .ok x := by
  cases c with
  | witness v =>
    rcases appendWitness_cases s v with ⟨fault, h⟩ | ⟨y, hy, h⟩
    · rw [call, step, h] at hx
      exact Or.inl hx
    · rw [call, step, h, mem_elements_grown] at hx
      rcases hx with hx | hx | ⟨g, hg, -⟩
      · exact Or.inl hx
      · obtain rfl := List.mem_singleton.mp hx
        exact Or.inr (Or.inr ⟨v, by simp [Call.values], hy⟩)
      · cases hg
  | gate G settings =>
    rcases appendGate_cases s (Draft.built G settings) with ⟨fault, h⟩ | ⟨g, hg, h⟩
    · rw [call, step, h] at hx
      exact Or.inl hx
    · rw [call, step, h, mem_elements_grown] at hx
      rcases hx with hx | hx | ⟨g', hg', hx⟩
      · exact Or.inl hx
      · cases hx
      · -- the draft is over the field of the system, or there would be no gate
        obtain rfl := List.mem_singleton.mp hg'
        obtain ⟨hsame, hselectors, -⟩ := gateOf_inv hg
        obtain ⟨hfield, horigin⟩ := Draft.origin_of_mem_built G settings
        obtain rfl : G = s.field := hfield.symm.trans hsame
        rw [hselectors] at hx
        refine Or.inr ((horigin x hx).imp_right ?_)
        rintro ⟨setting, hsetting, v, hv, hx⟩
        exact ⟨v, List.mem_flatMap.mpr ⟨setting, hsetting, hv⟩, hx⟩

/-- **Whatever is in a system is zero or a supplied value, brought into its field.** -/
theorem origin_of_mem_elements {calls : List Call} {x : Element}
    (hx : x ∈ ((empty F).afterCalls calls).elements) :
    x = .number F.zero ∨ ∃ c ∈ calls, ∃ v ∈ c.values, F.element v = .ok x := by
  -- the field is kept along the way, because it is the one that values are brought into
  have hrun := afterCalls_induction (P := fun s => s.field = F ∧ ∀ x ∈ s.elements,
    x = .number F.zero ∨ ∃ c ∈ calls, ∃ v ∈ c.values, F.element v = .ok x) (s := empty F)
    ⟨rfl, fun x hx => Or.inl (by simpa [elements, empty] using hx)⟩ fun c hc s hs => by
      obtain ⟨hfield, horigin⟩ := hs
      refine ⟨(extends_call s c).field.trans hfield, fun x hx => ?_⟩
      rcases call_brings hx with hx | hx | ⟨v, hv, hx⟩
      · exact horigin x hx
      · exact Or.inl (hfield ▸ hx)
      · exact Or.inr ⟨c, hc, v, hv, hfield ▸ hx⟩
  exact hrun.2 x hx

theorem field_of_mem_elements {calls : List Call} {x : Element}
    (hx : x ∈ ((empty F).afterCalls calls).elements) : x.field = F := by
  rcases origin_of_mem_elements hx with rfl | ⟨c, -, v, -, hx⟩
  · rfl
  · exact (PrimeField.element_ok hx).1

theorem isNumber_of_mem_elements {calls : List Call} {x : Element} (hcalls : TextFree calls)
    (hx : x ∈ ((empty F).afterCalls calls).elements) : x.IsNumber := by
  rcases origin_of_mem_elements hx with rfl | ⟨c, hc, v, hv, hx⟩
  · trivial
  · exact (PrimeField.element_ok hx).2 (hcalls c hc v hv)

/-! ## Evaluation -/

/-- **A gate over residues, with its wires in the system, evaluates to the residue of its left side
over the integers.** -/
theorem WellFormed.evaluate_eq {g : Gate} (hs : WellFormed F s)
    (hfield : ∀ x ∈ s.elements, x.field = F) (hnumber : ∀ x ∈ s.elements, x.IsNumber)
    (hg : g ∈ s.gates) :
    ∃ a b o, s.witnesses[g.a]? = some a ∧ s.witnesses[g.b]? = some b ∧ s.witnesses[g.o]? = some o ∧
      s.evaluate g =
        .ok (.number (F.reduce (g.selectors.weights.eval a.toInt b.toInt o.toInt))) := by
  have hreduce : ∀ x ∈ s.elements, x = .number (F.reduce x.toInt) := fun x hx =>
    hfield x hx ▸ (hnumber x hx).eq_reduce
  have hwire : ∀ i ∈ g.wires, ∃ x, s.witnesses[i]? = some x ∧
      s.witnessValue i = .ok (.number (F.reduce x.toInt)) := by
    intro i hi
    have hx := List.getElem?_eq_getElem (hs.wires g hg i hi)
    refine ⟨_, hx, witnessValue_of_getElem? (hx.trans (congrArg some (hreduce _ ?_)))⟩
    exact List.mem_append_left _ (List.getElem_mem _)
  obtain ⟨a, ha, hvalueA⟩ := hwire g.a (by simp [Gate.wires])
  obtain ⟨b, hb, hvalueB⟩ := hwire g.b (by simp [Gate.wires])
  obtain ⟨o, ho, hvalueO⟩ := hwire g.o (by simp [Gate.wires])
  have hselector : ∀ x ∈ g.selectors.toList, x = .number (F.reduce x.toInt) := fun x hx =>
    hreduce x (List.mem_append_right _ (List.mem_flatMap.mpr ⟨g, hg, hx⟩))
  simp only [Selectors.toList, List.forall_mem_cons] at hselector
  obtain ⟨hqm, hql, hqr, hqo, hqc, hpi, -⟩ := hselector
  have hweights : g.selectors = g.selectors.weights.selectors F := by
    rw [Weights.selectors, Selectors.weights, ← hqm, ← hql, ← hqr, ← hqo, ← hqc, ← hpi]
  refine ⟨a, b, o, ha, hb, ho, ?_⟩
  rw [evaluate, hvalueA, hvalueB, hvalueO]
  exact Gate.evaluate_reduce hweights

theorem WellFormed.exists_evaluate {g : Gate} (hs : WellFormed F s)
    (hfield : ∀ x ∈ s.elements, x.field = F) (hnumber : ∀ x ∈ s.elements, x.IsNumber)
    (hg : g ∈ s.gates) : ∃ r : Residue, r.field = F ∧ s.evaluate g = .ok (.number r) := by
  obtain ⟨a, b, o, -, -, -, hvalue⟩ := hs.evaluate_eq hfield hnumber hg
  exact ⟨_, rfl, hvalue⟩

theorem le_of_mem_nonzeroPositions {index i : Nat} {xs : List Element}
    (h : i ∈ nonzeroPositions index xs) : index ≤ i := by
  induction xs generalizing index with
  | nil => cases h
  | cons x xs ih =>
    rw [nonzeroPositions] at h
    split_ifs at h
    · exact Nat.le_of_succ_le (ih h)
    · rcases List.mem_cons.mp h with rfl | h
      · exact Nat.le_refl i
      · exact Nat.le_of_succ_le (ih h)

/-- What is appended to a list changes no position in it. -/
theorem filter_nonzeroPositions (index : Nat) (xs ys : List Element) :
    (nonzeroPositions index (xs ++ ys)).filter (· < index + xs.length) =
      nonzeroPositions index xs := by
  induction xs generalizing index with
  | nil =>
    refine List.filter_eq_nil_iff.mpr fun i hi => ?_
    have hle := le_of_mem_nonzeroPositions hi
    simpa using hle
  | cons x xs ih =>
    have hlength : index + (x :: xs).length = index + 1 + xs.length := by
      rw [List.length_cons]
      omega
    rw [List.cons_append, nonzeroPositions, nonzeroPositions, hlength]
    split_ifs with hx
    · exact ih (index + 1)
    · rw [List.filter_cons_of_pos (by simp; omega), ih (index + 1)]

/-- **Gates that are recorded later do not change which of the old ones hold.** -/
theorem unsatisfied_of_extends {positions : List Nat} (hs : WellFormed F s) (h : Extends s t)
    (ht : t.unsatisfied = .ok positions) :
    s.unsatisfied = .ok (positions.filter (· < s.gates.length)) := by
  obtain ⟨xs, hxs, rfl⟩ := map_eq_ok.mp ht
  obtain ⟨more, hmore⟩ := h.gates
  have hold := List.forall₂_take s.gates.length (mapM_eq_ok.mp hxs)
  rw [← hmore, List.take_left] at hold
  have hleft : s.leftSides = .ok (xs.take s.gates.length) := by
    refine mapM_eq_ok.mpr ((forall₂_mem hold).imp fun g x hx => ?_)
    rw [← evaluate_of_extends (hs.wires g hx.1) h]
    exact hx.2
  have hfilter := filter_nonzeroPositions 0 (xs.take s.gates.length) (xs.drop s.gates.length)
  rw [List.take_append_drop, ← hold.length_eq, Nat.zero_add] at hfilter
  rw [unsatisfied, hleft, ok_map, hfilter]

/-! ## The state invariant -/

/-- **Recorded gates stay valid.** Take any field and any run of calls, of which some may fail. Then
the first witness holds zero, and the numbers of every gate are in the field and its wires lead to
witnesses. So if no text was supplied in place of a residue, its numbers are residues and it
evaluates to one. A call that fails changes nothing. No later call changes a recorded gate or its
value, nor which of the recorded gates hold. -/
theorem recorded_gates_stay_valid (F : PrimeField) (calls : List Call) :
    let s := (empty F).afterCalls calls
    s.witnesses[0]? = some (.number F.zero) ∧
      (∀ g ∈ s.gates, (∀ x ∈ g.selectors.toList, x.field = F) ∧
        ∀ i ∈ g.wires, i < s.witnesses.length) ∧
      (TextFree calls → (∃ positions, s.unsatisfied = .ok positions) ∧
        ∀ g ∈ s.gates, (∀ x ∈ g.selectors.toList, ∃ r : Residue, r.field = F ∧ x = .number r) ∧
          ∃ r : Residue, r.field = F ∧ s.evaluate g = .ok (.number r)) ∧
      (∀ c fault, (s.step c).2 = .error fault → (empty F).afterCalls (calls ++ [c]) = s) ∧
      ∀ later, let t := (empty F).afterCalls (calls ++ later)
        s.gates <+: t.gates ∧ (∀ g ∈ s.gates, t.evaluate g = s.evaluate g) ∧
          ∀ positions, t.unsatisfied = .ok positions →
            s.unsatisfied = .ok (positions.filter (· < s.gates.length)) := by
  intro s
  have hs : WellFormed F s := (reachable_afterCalls F calls).wellFormed
  have hselector : ∀ g ∈ s.gates, ∀ x ∈ g.selectors.toList, x ∈ s.elements := fun g hg x hx =>
    List.mem_append_right _ (List.mem_flatMap.mpr ⟨g, hg, hx⟩)
  refine ⟨hs.zero, fun g hg => ⟨fun x hx => ?_, hs.wires g hg⟩, fun htext => ?_,
    fun c fault hfault => ?_, fun later => ?_⟩
  · exact field_of_mem_elements (hselector g hg x hx)
  · have hevaluate : ∀ g ∈ s.gates, ∃ r : Residue, r.field = F ∧ s.evaluate g = .ok (.number r) :=
      fun g hg => hs.exists_evaluate (fun x hx => field_of_mem_elements hx)
        (fun x hx => isNumber_of_mem_elements htext hx) hg
    obtain ⟨rs, hrs⟩ := exists_forall₂ hevaluate
    have hleft : s.leftSides = .ok (rs.map .number) :=
      mapM_eq_ok.mpr (List.forall₂_map_right_iff.mpr (hrs.imp fun _ _ hr => hr.2))
    refine ⟨⟨_, by rw [unsatisfied, hleft, ok_map]⟩, fun g hg => ⟨fun x hx => ?_, hevaluate g hg⟩⟩
    have hmem := hselector g hg x hx
    have hnumber := (isNumber_of_mem_elements htext hmem).eq_reduce
    exact ⟨_, field_of_mem_elements hmem, hnumber⟩
  · rw [afterCalls_append]
    exact call_of_error hfault
  · intro t
    have hextends : Extends s t := by
      have hlater := extends_afterCalls s later
      rwa [← afterCalls_append] at hlater
    exact ⟨hextends.gates, fun g hg => evaluate_of_extends (hs.wires g hg) hextends,
      fun positions => unsatisfied_of_extends hs hextends⟩

/-- A witness and the gate `x - 3`. Then a gate on a witness that is not there, a gate over another
field, and a text, all of which are turned down. -/
def exampleCalls : List Call :=
  [.witness (.int 3),
    .gate Circuit.exampleField
      [.number .left (.int 1), .number .publicInput (.int (-3)), .wire .a 1],
    .gate Circuit.exampleField [.number .left (.int 1), .wire .b (-1)],
    .gate .blsScalar [.number .mult (.int 2)],
    .witness (.text "x")]

theorem recorded_gates_stay_valid_example :
    let s := (empty Circuit.exampleField).afterCalls exampleCalls
    TextFree exampleCalls ∧ s.gates.length = 1 ∧ s.witnessCount = 1 ∧
      ∀ g ∈ s.gates, ∃ r : Residue, r.field = Circuit.exampleField ∧
        s.evaluate g = .ok (.number r) := by
  have htext : TextFree exampleCalls := by decide
  obtain ⟨-, -, hevaluate, -⟩ := recorded_gates_stay_valid Circuit.exampleField exampleCalls
  exact ⟨htext, by decide +kernel, by decide +kernel, fun g hg => ((hevaluate htext).2 g hg).2⟩

end ConstraintSystem

end PlonkGates
