import PlonkGates.Proofs.Numerals
import PlonkGates.Proofs.Systems

/-!
# Adding a circuit stops at the first fault

A circuit may be given a table of variables that its program knows nothing of. Then an expression
may have no gate: its public input or the witness on a wire is missing, or has the wrong role. All
witnesses are recorded by then, and so are the gates of the expressions before.

A draft that was assembled is always taken by the system that the witnesses were appended to
(`exists_gateOf_of_assembled`), so the only faults are those of the assembly. Adding the circuit
stops at the first expression that has one (`gatesFrom_outcome`).
-/

namespace PlonkGates

/-! ## Tables of given variables -/

namespace VariableTable

variable {vs ws : List Variable} {v w : Variable} {F : PrimeField}

theorem eq_or_mem_of_mem_insert (h : w ∈ insert v vs) : w = v ∨ w ∈ vs := by
  induction vs with
  | nil => exact Or.inl (List.mem_singleton.mp h)
  | cons u us ih =>
    rw [insert] at h
    split_ifs at h
    · exact List.mem_cons.mp h
    · exact (List.mem_cons.mp h).imp_right (List.mem_cons_of_mem u)
    · rcases List.mem_cons.mp h with rfl | h
      · exact Or.inr List.mem_cons_self
      · exact (ih h).imp_right (List.mem_cons_of_mem u)

theorem sorted_insert (h : Sorted vs) : Sorted (insert v vs) := by
  induction vs with
  | nil => exact List.pairwise_singleton _ v
  | cons u us ih =>
    obtain ⟨hu, hus⟩ := List.pairwise_cons.mp h
    rw [insert]
    split_ifs with hlt heq
    · refine List.pairwise_cons.mpr ⟨List.forall_mem_cons.mpr ⟨hlt, fun w hw => ?_⟩, h⟩
      exact lt_trans hlt (hu w hw)
    · exact List.pairwise_cons.mpr ⟨fun w hw => heq ▸ hu w hw, hus⟩
    · refine List.pairwise_cons.mpr ⟨fun w hw => ?_, ih hus⟩
      rcases eq_or_mem_of_mem_insert hw with rfl | hw
      · exact lt_of_le_of_ne (not_lt.mp hlt) (Ne.symm heq)
      · exact hu w hw

/-- A variable is found under its name, and it hides one that was there before. -/
theorem find?_insert (v : Variable) (vs : List Variable) (name : String) :
    (insert v vs).find? (·.name = name) =
      if v.name = name then some v else vs.find? (·.name = name) := by
  induction vs with
  | nil => by_cases hname : v.name = name <;> simp [insert, hname]
  | cons u us ih =>
    rw [insert]
    by_cases hname : v.name = name
    · rw [if_pos hname]
      split_ifs with hlt heq
      · exact List.find?_cons_of_pos (by simpa using hname)
      · exact List.find?_cons_of_pos (by simpa using hname)
      · have hu : u.name ≠ name := fun hu => heq (hname.trans hu.symm)
        rw [List.find?_cons_of_neg (by simpa using hu), ih, if_pos hname]
    · rw [if_neg hname] at ih ⊢
      split_ifs with hlt heq
      · exact List.find?_cons_of_neg (by simpa using hname)
      · rw [List.find?_cons_of_neg (by simpa using hname),
          List.find?_cons_of_neg (by simpa [← heq] using hname)]
      · rw [List.find?_cons, List.find?_cons, ih]

/-- **A table of given variables is sorted, and the last variable with a name is the one found.** -/
theorem ofVariables_spec (F : PrimeField) (vs : List Variable) :
    Sorted (ofVariables F vs).entries ∧
      ∀ name, (ofVariables F vs).find? name = vs.reverse.find? (·.name = name) := by
  simp only [ofVariables, find?]
  induction vs using List.reverseRecOn with
  | nil => exact ⟨List.Pairwise.nil, fun name => rfl⟩
  | append_singleton vs v ih =>
    rw [List.foldl_append, List.foldl_cons, List.foldl_nil, List.reverse_concat]
    refine ⟨sorted_insert ih.1, fun name => ?_⟩
    rw [find?_insert, ih.2, List.find?_cons]
    by_cases hname : v.name = name <;> simp [hname]

theorem mem_of_mem_ofVariables (h : v ∈ (ofVariables F vs).entries) : v ∈ vs := by
  obtain ⟨hsorted, hfind⟩ := ofVariables_spec F vs
  have hv := hsorted.find?_eq_some_iff.mpr ⟨h, rfl⟩
  exact List.mem_reverse.mp (List.mem_of_find?_eq_some ((hfind v.name).symm.trans hv))

/-- The witnesses of a table of given variables: for each name the last variable counts. -/
theorem mem_witnesses_ofVariables {name : String} {x : Element} :
    (name, x) ∈ (ofVariables F vs).witnesses ↔
      ∃ v, vs.reverse.find? (·.name = name) = some v ∧ v.role = .witness ∧ v.value = x := by
  obtain ⟨hsorted, hfind⟩ := ofVariables_spec F vs
  simp only [← hfind, find?, hsorted.find?_eq_some_iff, witnesses, List.mem_map, List.mem_filter]
  constructor
  · rintro ⟨v, ⟨hv, hrole⟩, heq⟩
    obtain ⟨rfl, rfl⟩ := Prod.mk.inj heq
    refine ⟨v, ⟨hv, rfl⟩, ?_, rfl⟩
    cases hr : v.role with
    | witness => rfl
    | publicInput => simp [Variable.isPublic, hr] at hrole
  · rintro ⟨v, ⟨hv, rfl⟩, hrole, rfl⟩
    exact ⟨v, ⟨hv, by simp [Variable.isPublic, hrole]⟩, rfl⟩

/-- The witnesses of a sorted table are in strictly increasing order of their names. -/
theorem sorted_witnesses {t : VariableTable} (h : Sorted t.entries) :
    (t.witnesses.map (·.1)).Pairwise (· < ·) := by
  rw [witnesses, List.map_map]
  exact List.pairwise_map.mpr (h.filter _)

end VariableTable

/-! ## Drafts -/

namespace Draft

variable {F : PrimeField} {d d' : Draft} {table : VariableTable} {ws : List (String × Int)}

section Assembly

variable {P : Draft → Prop}
  (hset : ∀ d d' selector x, P d → d.set selector (.element x) = .ok d' → P d')

include hset

theorem withPublic_keeps {rhs : Option PublicTerm} (h : P d)
    (hd : d.withPublic table rhs = .ok d') : P d' := by
  cases rhs with
  | none =>
    cases hd
    exact h
  | some p =>
    rw [withPublic] at hd
    cases hfind : table.find? p.name with
    | none =>
      rw [hfind] at hd
      cases hd
    | some v =>
      rw [hfind] at hd
      dsimp only at hd
      split_ifs at hd
      obtain ⟨x, -, hd⟩ := bind_eq_ok.mp hd
      exact hset d d' _ x h hd

theorem withMultiplier_keeps {multiplier : Option (Value × Bool)} (h : P d)
    (hd : d.withMultiplier multiplier = .ok d') : P d' := by
  cases multiplier with
  | none =>
    cases hd
    exact h
  | some m =>
    obtain ⟨x, -, hd⟩ := bind_eq_ok.mp hd
    exact hset d d' _ x h hd

theorem withSelectors_keeps {terms : List SelectorTerm} (h : P d)
    (hd : d.withSelectors terms = .ok d') : P d' := by
  induction terms generalizing d with
  | nil =>
    cases hd
    exact h
  | cons t terms ih =>
    obtain ⟨x, -, hd⟩ := bind_eq_ok.mp hd
    obtain ⟨e, he, hd⟩ := bind_eq_ok.mp hd
    exact ih (hset d e _ x h he) hd

omit hset in
theorem withBindings_keeps {bindings : Bindings} (h : P d)
    (hattach : ∀ d wire name i, P d → ws.lookup name = some i → P (d.attach wire i))
    (hd : d.withBindings ws bindings = .ok d') : P d' := by
  induction bindings generalizing d with
  | nil =>
    cases hd
    exact h
  | cons binding bindings ih =>
    obtain ⟨wire, name⟩ := binding
    rw [withBindings] at hd
    cases hlookup : ws.lookup name with
    | none =>
      rw [hlookup] at hd
      cases hd
    | some index =>
      rw [hlookup] at hd
      exact ih (hattach d wire name index h hlookup) hd

/-- **What holds of the empty draft, and is kept when a number is set or a wire is attached to one
of the witnesses, holds of every draft that is assembled.** -/
theorem ofLayout_induction {layout : Layout} (hempty : P (.empty F))
    (hattach : ∀ d wire name i, P d → ws.lookup name = some i → P (d.attach wire i))
    (h : ofLayout layout table ws F = .ok d) : P d := by
  obtain ⟨d₁, hd₁, h⟩ := bind_eq_ok.mp h
  obtain ⟨d₂, hd₂, h⟩ := bind_eq_ok.mp h
  obtain ⟨d₃, hd₃, h⟩ := bind_eq_ok.mp h
  have h₁ := withPublic_keeps hset hempty hd₁
  have h₂ := withMultiplier_keeps hset h₁ hd₂
  have h₃ := withSelectors_keeps hset h₂ hd₃
  exact withBindings_keeps h₃ hattach h

end Assembly

/-- A draft over a field whose wires are free or attached to some of the named witnesses. -/
structure AttachedTo (F : PrimeField) (ws : List (String × Int)) (d : Draft) : Prop where
  field : d.field = F
  a : ∀ i, d.a = some i → ∃ name, ws.lookup name = some i
  b : ∀ i, d.b = some i → ∃ name, ws.lookup name = some i
  o : ∀ i, d.o = some i → ∃ name, ws.lookup name = some i

theorem attachedTo_ofLayout {layout : Layout} (h : ofLayout layout table ws F = .ok d) :
    AttachedTo F ws d := by
  refine ofLayout_induction ?_ ⟨rfl, nofun, nofun, nofun⟩ ?_ h
  · intro d d' selector x hd hset
    obtain ⟨y, -, rfl⟩ := map_eq_ok.mp hset
    exact ⟨hd.field, hd.a, hd.b, hd.o⟩
  · intro d wire name i hd hlookup
    have hattached : ∀ j, some i = some j → ∃ name, ws.lookup name = some j :=
      fun j hj => ⟨name, hlookup.trans hj⟩
    cases wire with
    | a => exact ⟨hd.field, hattached, hd.b, hd.o⟩
    | b => exact ⟨hd.field, hd.a, hattached, hd.o⟩
    | o => exact ⟨hd.field, hd.a, hd.b, hattached⟩

end Draft

namespace ConstraintSystem

variable {s : ConstraintSystem}

theorem exists_wireIndex {index : Option Int}
    (h : ∀ i, index = some i → 0 ≤ i ∧ i < s.witnesses.length) :
    ∃ i, s.wireIndex index = .ok i := by
  cases index with
  | none => exact ⟨0, rfl⟩
  | some i => exact ⟨i.toNat, if_pos (h i rfl)⟩

/-- A draft over the field of a system becomes a gate if its wires lead to witnesses. -/
theorem exists_gateOf {ws : List (String × Int)} {d : Draft} (hd : d.AttachedTo s.field ws)
    (hws : ∀ name i, ws.lookup name = some i → 0 ≤ i ∧ i < s.witnesses.length) :
    ∃ g, s.gateOf d = .ok g := by
  have hwire : ∀ index : Option Int, (∀ i, index = some i → ∃ name, ws.lookup name = some i) →
      ∃ i, s.wireIndex index = .ok i := by
    intro index h
    refine exists_wireIndex fun i hi => ?_
    obtain ⟨name, hname⟩ := h i hi
    exact hws name i hname
  obtain ⟨a, ha⟩ := hwire d.a hd.a
  obtain ⟨b, hb⟩ := hwire d.b hd.b
  obtain ⟨o, ho⟩ := hwire d.o hd.o
  exact ⟨⟨d.selectors, a, b, o⟩, by rw [gateOf, if_pos hd.field, ha, hb, ho]; rfl⟩

end ConstraintSystem

/-! ## Circuits -/

namespace Circuit

variable {c : Circuit} {s : ConstraintSystem} {ws : List (String × Int)}

/-- The draft that is assembled for an expression of a circuit. -/
def assembled (c : Circuit) (ws : List (String × Int)) (e : Expression) : Except Fault Draft := do
  Draft.ofLayout (← Layout.ofExpression e) c.table ws c.field

theorem gateOf_eq_bind (e : Expression) : c.gateOf s ws e = c.assembled ws e >>= s.gateOf := by
  rw [gateOf, assembled, bind_assoc]

/-- **The draft of an expression is taken by the system that the witnesses were appended to.** -/
theorem exists_gateOf_of_assembled {e : Expression} {d : Draft} (hfield : s.field = c.field)
    (h : c.assembled (c.indices s) e = .ok d) : ∃ g, (c.withWitnesses s).gateOf d = .ok g := by
  obtain ⟨layout, -, hd⟩ := bind_eq_ok.mp h
  have hattached := Draft.attachedTo_ofLayout hd
  rw [← hfield] at hattached
  refine ConstraintSystem.exists_gateOf hattached fun name i hlookup => ?_
  have hbounds := lookup_numbered_bounds hlookup
  simp only [withWitnesses, List.length_append, List.length_map]
  omega

/-- **Recording gates stops at the first expression whose assembly fails**, with its fault. -/
theorem gatesFrom_outcome (es : List Expression) (index : Nat)
    (h : ∀ e d, c.assembled ws e = .ok d → ∃ g, s.gateOf d = .ok g) :
    (∃ gates, gatesFrom c s ws index es = (gates, .ok ()) ∧
      List.Forall₂ (fun e g => c.gateOf s ws e = .ok g) es gates) ∨
    ∃ gates i e cause,
      gatesFrom c s ws index es = (gates, .error (inExpression (index + i) e cause)) ∧
      List.Forall₂ (fun e g => c.gateOf s ws e = .ok g) (es.take i) gates ∧
      es[i]? = some e ∧ c.assembled ws e = .error cause := by
  induction es generalizing index with
  | nil => exact Or.inl ⟨[], rfl, .nil⟩
  | cons e es ih =>
    rw [gatesFrom]
    cases hassembled : c.assembled ws e with
    | error cause =>
      have hdraft : c.draft ws index e = .error (inExpression index e cause) :=
        congrArg (Except.mapError (inExpression index e)) hassembled
      rw [hdraft]
      exact Or.inr ⟨[], 0, e, cause, rfl, .nil, rfl, hassembled⟩
    | ok d =>
      obtain ⟨g, hg⟩ := h e d hassembled
      have hgate : c.gateOf s ws e = .ok g := by rw [gateOf_eq_bind, hassembled, ok_bind, hg]
      rw [draft_bind_eq_ok.mpr hgate]
      rcases ih (index + 1) with ⟨gates, hrest, hgates⟩ |
        ⟨gates, i, e', cause, hrest, hgates, he', hcause⟩
      · rw [hrest]
        exact Or.inl ⟨g :: gates, rfl, .cons hgate hgates⟩
      · rw [hrest, Nat.add_assoc, Nat.add_comm 1 i]
        exact Or.inr ⟨g :: gates, i + 1, e', cause, rfl, .cons hgate hgates, he', hcause⟩

theorem toList_prefix_append (s t : String) : s.toList <+: (s ++ t).toList := by
  rw [String.toList_append]
  exact List.prefix_append _ _

theorem message_inExpression (index : Nat) (text : String) (cause : Divergence) :
    ("expression " ++ Text.numeral index ++ " (").toList <+:
      (Fault.divergence (.inExpression index text cause)).message.toList :=
  have hmessage : (Fault.divergence (.inExpression index text cause)).message =
    "expression " ++ Text.numeral index ++ " (" ++ text ++ "): " ++ cause.message := rfl
  hmessage ▸ (toList_prefix_append _ _).trans
    ((toList_prefix_append _ _).trans (toList_prefix_append _ _))

theorem inExpression_of_ok {index : Nat} {e : Expression} {text : String}
    (h : e.toText = .ok text) (inner : Divergence) :
    inExpression index e (.divergence inner) = .divergence (.inExpression index text inner) := by
  rw [inExpression, h]

theorem inExpression_of_other {index : Nat} {e : Expression} {cause : Fault}
    (h : ∀ inner, cause ≠ .divergence inner) : inExpression index e cause = cause := by
  cases cause with
  | divergence inner => exact absurd rfl (h inner)
  | _ => rfl

/-- An expression that cannot be written takes the place of the divergence in it. -/
theorem inExpression_of_not_writable {index : Nat} {e : Expression} {v : Value}
    (hv : v ∈ e.coefficients) (hlong : v.isWritable = false) (inner : Divergence) :
    inExpression index e (.divergence inner) = .tooLongToWrite := by
  have htext := e.writes_toText.eq_error fun h => by simp [h v hv] at hlong
  rw [inExpression, htext]

/-- A divergence names the position of the expression at fault. -/
theorem message_of_divergence {index : Nat} {e : Expression} {cause : Fault}
    {divergence : Divergence} (h : inExpression index e cause = .divergence divergence) :
    ("expression " ++ Text.numeral index ++ " (").toList <+:
      (inExpression index e cause).message.toList := by
  have hinner : ∃ text inner, divergence = .inExpression index text inner := by
    cases cause with
    | divergence inner =>
      obtain ⟨-, text, htext⟩ | ⟨-, htext⟩ := e.writes_toText
      · rw [inExpression_of_ok htext] at h
        cases h
        exact ⟨text, inner, rfl⟩
      · rw [inExpression, htext] at h
        cases h
    | _ => nomatch h
  obtain ⟨text, inner, rfl⟩ := hinner
  exact h ▸ message_inExpression index text inner

/-- The gate that an expression becomes when a circuit is added to a system. -/
def addedGate (c : Circuit) (s : ConstraintSystem) (e : Expression) : Except Fault Gate :=
  c.gateOf (c.withWitnesses s) (c.indices s) e

/-- **Adding a circuit that fails leaves a well-defined beginning of it.** Nothing is added to a
system over another field. Otherwise all witnesses of the table are recorded in the order of their
names, where the last variable with a name counts, and then the gates of the expressions before the
first whose assembly fails. Its fault is the fault of the whole, and a divergence names its position
and shows its text, unless a coefficient is too long to be written. This holds of any program, of
any table over the field and of any system. -/
theorem addTo_stops_at_first_fault (F : PrimeField) (es : List Expression) (vs : List Variable)
    (s : ConstraintSystem) (hvs : ∀ v ∈ vs, v.value.field = F) :
    let c : Circuit := ⟨F, es, .ofVariables F vs⟩
    (s.field ≠ F → c.addTo s = (s, .error (.circuitField s.field F))) ∧
    (s.field = F → ∃ gates outcome,
      c.addTo s =
        (⟨F, s.witnesses ++ c.table.witnesses.map (·.2), s.gates ++ gates⟩, outcome) ∧
      (c.table.witnesses.map (·.1)).Pairwise (· < ·) ∧
      (∀ name x, (name, x) ∈ c.table.witnesses ↔
        ∃ v, vs.reverse.find? (·.name = name) = some v ∧ v.role = .witness ∧ v.value = x) ∧
      (outcome = .ok () → List.Forall₂ (fun e g => c.addedGate s e = .ok g) es gates) ∧
      ∀ fault, outcome = .error fault → ∃ i e cause, es[i]? = some e ∧
        (∀ e' ∈ es.take i, ∃ d, c.assembled (c.indices s) e' = .ok d) ∧
        c.assembled (c.indices s) e = .error cause ∧
        List.Forall₂ (fun e g => c.addedGate s e = .ok g) (es.take i) gates ∧
        fault = inExpression i e cause ∧
        ((∀ inner, cause ≠ .divergence inner) → fault = cause) ∧
        (∀ inner text, cause = .divergence inner → e.toText = .ok text →
          fault = .divergence (.inExpression i text inner)) ∧
        (∀ inner, ∀ v ∈ e.coefficients, cause = .divergence inner → v.isWritable = false →
          fault = .tooLongToWrite) ∧
        ∀ divergence, fault = .divergence divergence →
          ("expression " ++ Text.numeral i ++ " (").toList <+: fault.message.toList) := by
  intro c
  refine ⟨fun hfield => if_neg hfield, fun hfield => ?_⟩
  have hin : ∀ v ∈ c.table.entries, v.value.field = c.field := fun v hv =>
    hvs v (VariableTable.mem_of_mem_ofVariables hv)
  have hsorted := VariableTable.sorted_witnesses (VariableTable.ofVariables_spec F vs).1
  have hwitnesses : ∀ name x, (name, x) ∈ c.table.witnesses ↔
      ∃ v, vs.reverse.find? (·.name = name) = some v ∧ v.role = .witness ∧ v.value = x :=
    fun name x => VariableTable.mem_witnesses_ofVariables
  have hdrafts : ∀ e d, c.assembled (c.indices s) e = .ok d →
      ∃ g, (c.withWitnesses s).gateOf d = .ok g := fun e d => exists_gateOf_of_assembled hfield
  rw [addTo_eq hfield hin]
  rcases gatesFrom_outcome es 0 hdrafts with ⟨gates, hrest, hgates⟩ |
    ⟨gates, i, e, cause, hrest, hgates, he, hcause⟩
  · refine ⟨gates, .ok (), ?_, hsorted, hwitnesses, fun _ => hgates, fun fault h => ?_⟩
    · rw [hrest]
      simp only [withWitnesses, hfield]
    · cases h
  · refine ⟨gates, .error (inExpression i e cause), ?_, hsorted, hwitnesses, fun h => ?_, ?_⟩
    · rw [hrest, Nat.zero_add]
      simp only [withWitnesses, hfield]
    · cases h
    · rintro fault ⟨⟩
      have hbefore : ∀ e' ∈ es.take i, ∃ d, c.assembled (c.indices s) e' = .ok d := by
        intro e' he'
        obtain ⟨g, -, hg⟩ := exists_of_forall₂ hgates.flip he'
        rw [gateOf_eq_bind] at hg
        obtain ⟨d, hd, -⟩ := bind_eq_ok.mp hg
        exact ⟨d, hd⟩
      refine ⟨i, e, cause, he, hbefore, hcause, hgates, rfl, fun hother => ?_, ?_, ?_,
        fun _ => message_of_divergence⟩
      · exact inExpression_of_other hother
      · rintro inner text rfl htext
        exact inExpression_of_ok htext inner
      · rintro inner v hv rfl hlong
        exact inExpression_of_not_writable hv hlong inner

/-- Variables for the program `b - c = 0; 2a*b - 9c + a = -p` with a witness in the place of the
public input. -/
def misplacedVariables : List Variable :=
  ["p", "c", "b", "a"].map fun name => ⟨name, .witness, .number (exampleField.reduce 3)⟩

/-- The second expression is at fault, and the gate of the first one stays. -/
theorem addTo_stops_at_misplaced :
    let c : Circuit :=
      ⟨exampleField, exampleProgram.reverse, .ofVariables exampleField misplacedVariables⟩
    let s := ConstraintSystem.empty exampleField
    (c.addTo s).1.witnesses.length = 5 ∧ ∃ g e cause, exampleProgram.reverse[1]? = some e ∧
      c.assembled (c.indices s) e = .error cause ∧ (c.addTo s).1.gates = [g] ∧
      (c.addTo s).2 = .error (inExpression 1 e cause) := by
  intro c s
  have hvs : ∀ v ∈ misplacedVariables, v.value.field = exampleField := by
    intro v hv
    obtain ⟨name, -, rfl⟩ := List.mem_map.mp hv
    rfl
  obtain ⟨-, hadded⟩ := addTo_stops_at_first_fault exampleField exampleProgram.reverse
    misplacedVariables s hvs
  obtain ⟨gates, outcome, heq, -, -, hok, hfault⟩ := hadded rfl
  have hwitnesses : (c.addTo s).1.witnesses.length = 5 := by decide +kernel
  have hlength : (c.addTo s).1.gates.length = 1 := by decide +kernel
  have hfails : (c.addTo s).2.toOption = none := by decide +kernel
  rw [heq] at hlength hfails
  cases outcome with
  | ok _ => cases hfails
  | error fault =>
    obtain ⟨i, e, cause, he, -, hcause, hgates, rfl, -, -, -, -⟩ := hfault fault rfl
    obtain ⟨g, hg⟩ := List.length_eq_one_iff.mp hlength
    have hi : i = 1 := by
      have hcount := hgates.length_eq
      have hlt := (List.getElem?_eq_some_iff.mp he).1
      have htotal : exampleProgram.reverse.length = 2 := rfl
      change gates.length = 1 at hlength
      rw [List.length_take] at hcount
      omega
    subst hi
    exact ⟨hwitnesses, g, e, cause, he, hcause, heq ▸ hg, heq ▸ rfl⟩

end Circuit

end PlonkGates
